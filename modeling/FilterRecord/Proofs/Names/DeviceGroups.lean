/- Proofs/Names/DeviceGroups
   digest: How the text of a device group is read, and when the text that shows one reads back. -/

import Mathlib.Data.List.Nodup
import FilterRecord.Match.ReversePath
import FilterRecord.Proofs.Names.DeviceGroupLines
import FilterRecord.Proofs.Options.Operand
import FilterRecord.Proofs.Text.Words

set_option autoImplicit false
set_option relaxedAutoImplicit false

namespace FilterRecord.DeviceGroups

open Text

/-- A map whose names are words that stand for one group each and cannot be taken for numbers. -/
structure Sane (groups : DeviceGroups) : Prop where
  solid : ∀ entry ∈ groups.entries, Solid entry.2
  once : (groups.entries.map (·.2)).Nodup
  named : ∀ entry ∈ groups.entries, ∀ c ∈ entry.2.toList.head?, c.isDigit = false

variable {groups : DeviceGroups} {id : UInt32} {name : String}

theorem solid_ofText {text : String} (read : ofText text = .ok groups) :
    ∀ entry ∈ groups.entries, Solid entry.2 := by
  intro entry member
  obtain ⟨line, -, gives⟩ := exists_line read member
  cases gives with
  | @group _ name _ _ fields _ =>
    have second : name ∈ words line := by simp [words_eq_iff.mpr fields]
    exact solid_of_mem_words second

theorem sane_empty : Sane .empty where
  solid := by simp [empty]
  once := by simp [empty]
  named := by simp [empty]

/-- A map that is empty or written by a text is sane once its names are apart and no numbers. -/
theorem sane_of_written (written : groups = .empty ∨ ∃ text, ofText text = .ok groups)
    (once : (groups.entries.map (·.2)).Nodup)
    (named : ∀ entry ∈ groups.entries, ∀ c ∈ entry.2.toList.head?, c.isDigit = false) :
    groups.Sane := by
  rcases written with rfl | ⟨text, read⟩
  · exact sane_empty
  · exact ⟨solid_ofText read, once, named⟩

theorem mem_of_nameOf? (found : groups.nameOf? id = some name) : (id, name) ∈ groups.entries := by
  obtain ⟨entry, search, rfl⟩ := Option.map_eq_some_iff.mp found
  have number : entry.1 = id := by simpa using List.find?_some search
  have member := List.mem_of_find?_eq_some search
  rwa [← number]

private theorem find?_of_once {entries : List (UInt32 × String)}
    (once : (entries.map (·.2)).Nodup) {entry : UInt32 × String} (member : entry ∈ entries) :
    entries.find? (·.2 == entry.2) = some entry := by
  induction entries with
  | nil => exact absurd member (by simp)
  | cons first rest ih =>
    obtain ⟨new, others⟩ := List.nodup_cons.mp once
    rcases List.mem_cons.mp member with rfl | known
    · simp
    · have different : first.2 ≠ entry.2 := by
        intro same
        exact new (List.mem_map.mpr ⟨entry, known, same.symm⟩)
      rw [List.find?_cons_of_neg (by simpa using different)]
      exact ih others known

theorem idOf?_of_nameOf? (sane : groups.Sane) (found : groups.nameOf? id = some name) :
    groups.idOf? name = some id := by
  have member := mem_of_nameOf? found
  have search := find?_of_once sane.once member
  simp [idOf?, search]

private theorem isDigit_of_plain {c : Char} (plain : c.isDigit = false) :
    Numeral.isDigit 10 c = false := by
  by_contra digit
  rw [Bool.not_eq_false] at digit
  unfold Numeral.isDigit Numeral.digitValue at digit
  split_ifs at digit with decimal letter capital
  · have same : c.isDigit = true :=
      Bool.and_eq_true_iff.mpr ⟨decide_eq_true decimal.1, decide_eq_true decimal.2⟩
    exact absurd (plain.symm.trans same) (by decide)
  · simp only [decide_eq_true_eq] at digit
    have above : 97 ≤ c.toNat := letter.1
    omega
  · simp only [decide_eq_true_eq] at digit
    have above : 65 ≤ c.toNat := capital.1
    omega

private theorem read?_name (sane : groups.Sane) (member : (id, name) ∈ groups.entries) :
    Numeral.read? name.toList = none := by
  have filled := (sane.solid _ member).1
  have plain := sane.named _ member
  cases shape : name.toList with
  | nil => exact absurd (String.toList_inj.mp shape) filled
  | cons c cs => exact Numeral.read?_of_not_digit (isDigit_of_plain (plain c (by simp [shape])))

/-! How a text is read, and whether the text that shows a group is read as the group. -/

/-- A text is read by its numbers: it starts with a numeral of 32 bits, alone or before a stroke. -/
def isNumeric (s : String) : Bool :=
  match Numeral.read? s.toList with
  | some (value, rest) => value < 0x100000000 && rest.head?.all (· == '/')
  | none => false

theorem readMasked?_eq (groups : DeviceGroups) (s : String) :
    groups.readMasked? s =
      if isNumeric s then Options.readMasked? s
      else (groups.idOf? s).map fun id => ⟨id, MaskedWord.fullMask⟩ := by
  unfold readMasked? Options.readMasked? isNumeric
  cases read : Numeral.read? s.toList with
  | none => simp
  | some numeral =>
    obtain ⟨value, rest⟩ := numeral
    by_cases large : 0x100000000 ≤ value
    · simp [large, Nat.not_lt.mpr large]
    · rcases rest with _ | ⟨c, mask⟩
      · simp [large, Nat.not_le.mp large]
      · by_cases stroke : c = '/'
        · simp [large, Nat.not_le.mp large, stroke]
        · simp [large, stroke]

private theorem readMasked?_of_numbers {s : String} {word : MaskedWord}
    (numbers : Options.readMasked? s = some word) : groups.readMasked? s = some word := by
  have numeric : isNumeric s = true := by
    unfold Options.readMasked? at numbers
    unfold isNumeric
    split at numbers
    · cases numbers
    · rename_i value rest read
      rw [read]
      split at numbers
      · cases numbers
      · rename_i small
        split at numbers
        · simpa using small
        · simpa using small
        · cases numbers
  rw [readMasked?_eq, if_pos numeric, numbers]

/-- A name that leads to a group: read by numbers it gives the group with a full mask, and otherwise
the group is the first of this name. -/
def LeadsTo (groups : DeviceGroups) (name : String) (id : UInt32) : Prop :=
  if isNumeric name then Options.readMasked? name = some ⟨id, MaskedWord.fullMask⟩
  else groups.idOf? name = some id

private theorem readMasked?_name_iff :
    groups.readMasked? name = some ⟨id, MaskedWord.fullMask⟩ ↔ groups.LeadsTo name id := by
  rw [readMasked?_eq, LeadsTo]
  split
  · exact Iff.rfl
  · simp

private theorem display_named {word : MaskedWord} (full : word.mask = MaskedWord.fullMask)
    (named : groups.nameOf? word.value = some name) : groups.display word = name := by
  simp [display, full, named]

private theorem readMasked?_display_numbers (groups : DeviceGroups) {word : MaskedWord}
    (unnamed : word.mask = MaskedWord.fullMask → groups.nameOf? word.value = none) :
    groups.readMasked? (groups.display word) = some word := by
  apply readMasked?_of_numbers
  unfold display
  split
  · rename_i full
    rw [unnamed full, Option.getD_none, Options.readMasked?_value, ← full]
  · exact Options.readMasked?_masked word

/-- The text that shows a group reads back as the group, unless it is a name that does not lead to
the group: its number or number and mask states another, or another group has the name first. -/
theorem shown_reads_back_iff (groups : DeviceGroups) (word : MaskedWord) :
    groups.readMasked? (groups.display word) = some word ↔
      (word.mask = MaskedWord.fullMask → ∀ name, groups.nameOf? word.value = some name →
        groups.LeadsTo name word.value) := by
  by_cases full : word.mask = MaskedWord.fullMask
  · have whole : word = ⟨word.value, MaskedWord.fullMask⟩ := by rw [← full]
    cases named : groups.nameOf? word.value with
    | none => simpa using readMasked?_display_numbers groups fun _ => named
    | some name =>
      rw [display_named full named, whole, readMasked?_name_iff]
      simp
  · simpa [full] using readMasked?_display_numbers groups (absurd · full)

/-- The group 7 is called 5, and its text is read as the group 5. -/
theorem shown_reads_back_other : ∃ groups, ofText "7 5\n" = .ok groups ∧
    groups.display ⟨7, MaskedWord.fullMask⟩ = "5" ∧
    groups.readMasked? "5" = some ⟨5, MaskedWord.fullMask⟩ ∧
    groups.readMasked? (groups.display ⟨7, MaskedWord.fullMask⟩) ≠
      some ⟨7, MaskedWord.fullMask⟩ :=
  ⟨⟨[(7, "5")]⟩, by decide, by decide, by decide, by decide⟩

/-- Where names are sane, the text that shows a group reads back as the group. -/
theorem readMasked?_display (sane : groups.Sane) (word : MaskedWord) :
    groups.readMasked? (groups.display word) = some word := by
  by_cases full : word.mask = MaskedWord.fullMask
  · cases named : groups.nameOf? word.value with
    | none => exact readMasked?_display_numbers groups fun _ => named
    | some name =>
      have plain : isNumeric name = false := by
        rw [isNumeric, read?_name sane (mem_of_nameOf? named)]
      have leads : groups.LeadsTo name word.value := by
        simpa [LeadsTo, plain] using idOf?_of_nameOf? sane named
      rw [display_named full named, readMasked?_name_iff.mpr leads, ← full]
  · exact readMasked?_display_numbers groups (absurd · full)

theorem solid_display (sane : groups.Sane) (word : MaskedWord) : Solid (groups.display word) := by
  have stroke : Unbroken "/" := by decide
  unfold display
  split
  · cases found : groups.nameOf? word.value with
    | some name => exact sane.solid _ (mem_of_nameOf? found)
    | none => exact solid_hex _
  · exact solid_append (solid_append (solid_hex _) stroke) (solid_hex _).2

end FilterRecord.DeviceGroups
