/- Proofs/Target/Describing
   digest: A CT record that is packed and read again, whatever names were in it. -/

import Mathlib.Data.List.Forall2
import FilterRecord.Proofs.Record.NameSlot
import FilterRecord.Proofs.Unpacking

set_option autoImplicit false
set_option relaxedAutoImplicit false

namespace FilterRecord

open Text FilterRecord.Field
open Options (shown)

namespace Text

variable {short long : List String}

private theorem length_render_le
    (shorter : List.Forall₂ (fun v w : String => v.length ≤ w.length) short long) :
    (render short).length ≤ (render long).length := by
  induction shorter with
  | nil => rfl
  | cons first _ ih =>
    simp only [render, String.length_append]
    omega

/-- Words that are no longer than other ones, each in its place, are only the same text if they are
the same words. -/
theorem render_eq_iff
    (shorter : List.Forall₂ (fun v w : String => v.length ≤ w.length) short long) :
    render short = render long ↔ short = long := by
  refine ⟨fun same => ?_, fun same => same ▸ rfl⟩
  induction shorter with
  | nil => rfl
  | @cons v w vs ws first rest ih =>
    have below := length_render_le rest
    have total := congrArg String.length same
    simp only [render, String.length_append] at total
    simp only [render, String.append_assoc] at same
    have words := (String.append_right_inj _).mp same
    have lists := congrArg String.toList words
    simp only [String.toList_append] at lists
    obtain ⟨head, tail⟩ := List.append_inj lists (by
      simp only [String.length_toList]
      omega)
    rw [String.toList_inj.mp head, ih (String.toList_inj.mp tail)]

end Text

namespace ConnTrack

/-- What is read from the packed record: all but the name that the rule asked for it by, and names
as their slots give them back. -/
def reread (t : ConnTrack) : ConnTrack :=
  { t with
    helper := nameOf (nameSlot helperWidth t.helper)
    timeout := if t.revision = 0 then "" else nameOf (nameSlot timeoutWidth t.timeout)
    viaAlias := false }

theorem unpack_pack_reread (t : ConnTrack) : unpack t.revision t.pack = .ok t.reread := by
  have owned : Extension.Family.connTrack.Owns (.connTrack t) := .connTrack t
  have held {offset : Nat} {bytes : Bytes}
      (member : ⟨offset, bytes⟩ ∈ (Extension.connTrack t).numbers) : Holds offset bytes t.pack :=
    Extension.holds_pack owned (List.mem_append_left _ member)
  have flags : get16 0 t.pack = .ok t.flags := get16_of_holds (held (by simp [Extension.numbers]))
  have zone : get16 2 t.pack = .ok t.zone := get16_of_holds (held (by simp [Extension.numbers]))
  have events : get32 4 t.pack = .ok t.events :=
    get32_of_holds (held (by simp [Extension.numbers]))
  have expectations : get32 8 t.pack = .ok t.expectations :=
    get32_of_holds (held (by simp [Extension.numbers]))
  have helper : getName 12 helperWidth t.pack =
      .ok (nameOf (nameSlot helperWidth t.helper)) := by
    refine Extension.getName_pack owned (n := (⟨12, helperWidth⟩, t.helper)) ?_
    by_cases first : t.revision = 0 <;> simp [Extension.names, helperWidth, first]
  rw [unpack, checkSize_of_length t.length_pack, flags, zone, events, expectations, helper]
  by_cases first : t.revision = 0
  · simp [reread, first, bind, Except.bind, pure, Except.pure]
  · have timeout : getName (12 + helperWidth) timeoutWidth t.pack =
        .ok (nameOf (nameSlot timeoutWidth t.timeout)) :=
      Extension.getName_pack owned (n := (⟨28, timeoutWidth⟩, t.timeout))
        (by simp [Extension.names, timeoutWidth, first])
    simp [reread, first, one_le_of_ne_zero first, timeout, bind, Except.bind, pure, Except.pure]

def Plain (t : ConnTrack) : Prop :=
  ∀ n ∈ (Extension.connTrack t).names, '\x00' ∉ n.2.toList

private theorem names_reread (t : ConnTrack) : (Extension.connTrack t.reread).names =
    (Extension.connTrack t).names.map fun n => (n.1, nameOf (nameSlot n.1.width n.2)) := by
  by_cases first : t.revision = 0 <;>
    simp [Extension.names, reread, helperWidth, timeoutWidth, first]

/-- A record is packed the same once more exactly if all its names are settled. -/
theorem pack_reread_iff {t : ConnTrack} (plain : t.Plain) : t.reread.pack = t.pack ↔
    ∀ n ∈ (Extension.connTrack t).names, Settled n.1.width n.2 := by
  have settled {n : Slot × String} (member : n ∈ (Extension.connTrack t).names) :
      nameSlot n.1.width (nameOf (nameSlot n.1.width n.2)) = nameSlot n.1.width n.2 ↔
        Settled n.1.width n.2 :=
    nameSlot_again_iff (plain n member)
  constructor
  · intro same n member
    have again : (n.1, nameOf (nameSlot n.1.width n.2)) ∈ (Extension.connTrack t.reread).names := by
      rw [names_reread]
      exact List.mem_map_of_mem member
    have first := Extension.of_pack_name (.connTrack t) member
    have second := Extension.of_pack_name (.connTrack t.reread) again
    exact (settled member).mp (second.symm.trans ((congrArg n.1.of same).trans first))
  · intro all
    have names : ∀ n ∈ (Extension.connTrack t).names,
        Write.mk n.1.offset (nameSlot n.1.width (nameOf (nameSlot n.1.width n.2))) =
          Write.mk n.1.offset (nameSlot n.1.width n.2) := by
      intro n member
      rw [(settled member).mpr (all n member)]
    have writes : (Extension.connTrack t.reread).writes = (Extension.connTrack t).writes := by
      rw [Extension.writes, Extension.writes, names_reread, List.map_map]
      exact congrArg ((Extension.connTrack t).numbers ++ ·) (List.map_congr_left names)
    have first := Extension.pack_eq_puts (.connTrack t)
    have second := Extension.pack_eq_puts (.connTrack t.reread)
    rw [writes] at second
    exact second.trans first.symm

private theorem shown_shorter (on : Bool) (word : String) {v w : String}
    (shorter : on = true → v.length ≤ w.length ∧ (v = "" ↔ w = "")) :
    List.Forall₂ (fun v w : String => v.length ≤ w.length)
        (shown (on && v != "") false [word, v]) (shown (on && w != "") false [word, w]) ∧
      (shown (on && v != "") false [word, v] = shown (on && w != "") false [word, w] ↔
        (on = true → v = w)) := by
  cases on with
  | false => simp [shown]
  | true =>
    obtain ⟨length, empty⟩ := shorter rfl
    by_cases none : w = ""
    · simp [shown, none, empty.mpr none]
    · have some_text : v ≠ "" := fun blank => none (empty.mp blank)
      simp [shown, none, some_text, length]

private theorem ruleWords_around (t : ConnTrack) (dash : String) : ∃ before between,
    ∀ (helper timeout : String) (viaAlias : Bool),
      ruleWords dash { t with helper := helper, timeout := timeout, viaAlias := viaAlias } =
        before ++ (shown (helper != "") false [dash ++ "helper", helper] ++
          (between ++ shown (1 ≤ t.revision && timeout != "") false
            [dash ++ "timeout", timeout])) := by
  refine ⟨shown (t.has Flag.untracked) false [dash ++ "notrack"],
    shown (t.events != 0) false [dash ++ "ctevents", EventTable.connection.display t.events] ++
    shown (t.expectations != 0) false
      [dash ++ "expevents", EventTable.expectation.display t.expectations] ++
    shown (t.has Flag.zoneMark || t.zone != 0) false
      [dash ++ "zone" ++ t.directionSuffix,
        if t.has Flag.zoneMark then "mark" else Numeral.decimal t.zone.toNat], ?_⟩
  intro helper timeout viaAlias
  simp only [ruleWords, List.append_assoc]
  rfl

private theorem ruleWords_shorter (t : ConnTrack) {helper : String} (timeout dash : String)
    (helper_le : helper.length ≤ t.helper.length ∧ (helper = "" ↔ t.helper = ""))
    (timeout_le : t.revision ≠ 0 →
      timeout.length ≤ t.timeout.length ∧ (timeout = "" ↔ t.timeout = "")) :
    let other := { t with helper := helper, timeout := timeout, viaAlias := false }
    List.Forall₂ (fun v w : String => v.length ≤ w.length) (other.ruleWords dash)
        (t.ruleWords dash) ∧
      (other.ruleWords dash = t.ruleWords dash ↔
        helper = t.helper ∧ (t.revision ≠ 0 → timeout = t.timeout)) := by
  intro other
  have same (ws : List String) : List.Forall₂ (fun v w : String => v.length ≤ w.length) ws ws :=
    List.forall₂_same.mpr fun _ _ => le_rfl
  have later : decide (1 ≤ t.revision) = true ↔ t.revision ≠ 0 := by
    rw [decide_eq_true_eq]
    exact ⟨ne_zero_of_one_le, one_le_of_ne_zero⟩
  have first := shown_shorter true (dash ++ "helper") fun _ => helper_le
  have second := shown_shorter (decide (1 ≤ t.revision)) (dash ++ "timeout") fun on =>
    timeout_le (later.mp on)
  simp only [Bool.true_and, forall_const] at first
  rw [later] at second
  obtain ⟨before, between, words⟩ := t.ruleWords_around dash
  rw [show t.ruleWords dash = _ from words t.helper t.timeout t.viaAlias,
    show other.ruleWords dash = _ from words helper timeout false]
  constructor
  · exact List.rel_append (same before) (List.rel_append first.1
      (List.rel_append (same between) second.1))
  · rw [List.append_cancel_left_eq, ← first.2, ← second.2]
    constructor
    · intro equal
      obtain ⟨helpers, rest⟩ := List.append_inj equal first.1.length_eq
      exact ⟨helpers, List.append_cancel_left rest⟩
    · rintro ⟨helpers, timeouts⟩
      rw [helpers, timeouts]

/-- A record is saved the same once more exactly if it is the alias's, of which nothing is saved, or
all its names are kept. -/
theorem saved_reread_iff {t : ConnTrack} (plain : t.Plain) :
    render t.reread.savedWords = render t.savedWords ↔
      t.has Flag.byAlias = true ∨ ∀ n ∈ (Extension.connTrack t).names, Kept n.1.width n.2 := by
  have helper_member : (⟨12, helperWidth⟩, t.helper) ∈ (Extension.connTrack t).names := by
    by_cases first : t.revision = 0 <;> simp [Extension.names, helperWidth, first]
  have timeout_member (later : t.revision ≠ 0) :
      (⟨28, timeoutWidth⟩, t.timeout) ∈ (Extension.connTrack t).names := by
    simp [Extension.names, timeoutWidth, later]
  have helper_kept := nameOf_nameSlot_eq_iff (by decide : 0 < helperWidth)
    (plain _ helper_member)
  have timeout_kept (later : t.revision ≠ 0) := nameOf_nameSlot_eq_iff
    (by decide : 0 < timeoutWidth) (plain _ (timeout_member later))
  have shorter := ruleWords_shorter t t.reread.timeout "--"
    (length_nameOf_nameSlot (by decide : 1 < helperWidth) (plain _ helper_member))
    fun later => by
      simpa [reread, later] using
        length_nameOf_nameSlot (by decide : 1 < timeoutWidth) (plain _ (timeout_member later))
  by_cases hidden : t.has Flag.byAlias = true
  · have still : t.reread.has Flag.byAlias = true := hidden
    simp [savedWords, hidden, still]
  · have still : ¬ t.reread.has Flag.byAlias = true := hidden
    rw [savedWords, savedWords, if_neg hidden, if_neg still, or_iff_right hidden]
    refine (render_eq_iff shorter.1).trans (shorter.2.trans ?_)
    by_cases first : t.revision = 0
    · simpa [Extension.names, first, helperWidth] using helper_kept
    · simpa [Extension.names, first, reread, helperWidth, timeoutWidth] using
        and_congr helper_kept (timeout_kept first)

end ConnTrack

namespace Registration

private theorem family_tracking : ∀ r ∈ Registry.all, r.realName = "CT" →
    r.family = .connTrack ∨ r.family = .noTrack := by
  decide

private theorem tracking_of_unpack {r : Registration} (registered : r ∈ Registry.all)
    (tracking : r.realName = "CT") {record : Bytes} {ext : Extension}
    (read : r.unpack record = .ok ext) :
    ∃ t, ext = .connTrack t ∧ t.viaAlias = false ∧ t.Plain ∧
      r.unpack ext.pack = .ok (.connTrack t.reread) := by
  have reads := Extension.Family.reads_of_unpack read
  rcases r with ⟨name, realName, part, revision, family⟩
  rcases family_tracking _ registered tracking with rfl | rfl <;>
  · obtain ⟨t, unpacked, rfl⟩ := map_eq_ok_iff.mp read
    obtain ⟨rfl, -⟩ := ConnTrack.unpack_ok unpacked
    have named := congrArg ConnTrack.viaAlias (Extension.connTrack.inj reads.recorded)
    refine ⟨t, rfl, named.symm, fun n member => ?_,
      map_eq_ok_iff.mpr ⟨_, t.unpack_pack_reread, rfl⟩⟩
    rw [(reads.names n member).2]
    exact plain_nameOf _

/-- A CT record that is described can always be described again. It is the same record exactly if
every name is settled, and the same text exactly if every name is kept or none is shown. -/
theorem describe_again {r : Registration} (registered : r ∈ Registry.all)
    (tracking : r.realName = "CT") {record : Bytes} {ext : Extension}
    (read : r.unpack record = .ok ext) :
    ∃ again, r.unpack ext.pack = .ok again ∧
      (again.pack = ext.pack ↔ ∀ n ∈ ext.names, Settled n.1.width n.2) ∧
      ∀ host, again.saved host = ext.saved host ↔
        ext.shownName = ConnTrack.aliasName ∨ ∀ n ∈ ext.names, Kept n.1.width n.2 := by
  obtain ⟨t, rfl, named, plain, second⟩ := tracking_of_unpack registered tracking read
  refine ⟨_, second, ConnTrack.pack_reread_iff plain, fun host => ?_⟩
  refine (ConnTrack.saved_reread_iff plain).trans (or_congr_left ?_)
  by_cases hidden : t.has ConnTrack.Flag.byAlias = true
  · simp [Extension.shownName, ConnTrack.shownName, hidden]
  · simp [Extension.shownName, ConnTrack.shownName, named, hidden, ConnTrack.aliasName,
      ConnTrack.name]

/-- A name of five ill-formed bytes, whose text is one byte too long for its slot. -/
theorem describe_again_replacements :
    let r : Registration := ⟨"CT", "CT", .target, 0, .connTrack⟩
    let record : Bytes := zeros 12 ++ (0x61 :: List.replicate 5 0xff) ++ zeros 22
    r ∈ Registry.all ∧ r.realName = "CT" ∧ ∃ ext, r.unpack record = .ok ext ∧
      ext.names = [(⟨12, 16⟩, "a\ufffd\ufffd\ufffd\ufffd\ufffd")] ∧
      ∃ again, r.unpack ext.pack = .ok again ∧ again.pack = ext.pack ∧
        again.saved .empty = ext.saved .empty := by
  intro r record
  have registered : r ∈ Registry.all := by decide
  obtain ⟨ext, read, names⟩ : ∃ ext, r.unpack record = .ok ext ∧
      ext.names = [(⟨12, 16⟩, "a\ufffd\ufffd\ufffd\ufffd\ufffd")] :=
    ⟨.connTrack ⟨0, 0, 0, 0, 0, "a\ufffd\ufffd\ufffd\ufffd\ufffd", "", false⟩,
      by with_unfolding_all rfl, by decide⟩
  obtain ⟨again, second, packed, saved⟩ := describe_again registered rfl read
  have settled : Settled 16 "a\ufffd\ufffd\ufffd\ufffd\ufffd" :=
    ⟨['a', '\ufffd', '\ufffd', '\ufffd', '\ufffd'], [0xef, 0xbf], by decide, by decide⟩
  have kept : Kept 16 "a\ufffd\ufffd\ufffd\ufffd\ufffd" :=
    .inr ⟨['a', '\ufffd', '\ufffd', '\ufffd', '\ufffd'], by decide, by decide⟩
  refine ⟨registered, rfl, ext, read, names, again, second, packed.mpr ?_, (saved _).mpr (.inr ?_)⟩
  · simpa [names] using settled
  · simpa [names] using kept

/-- A name whose text is cut within its last character changes once more. -/
theorem describe_again_cut :
    let r : Registration := ⟨"CT", "CT", .target, 0, .connTrack⟩
    let record : Bytes :=
      zeros 12 ++ (List.replicate 4 0xff ++ [0x61, 0x61, 0xc3, 0xa9]) ++ zeros 20
    r ∈ Registry.all ∧ ∃ ext again, r.unpack record = .ok ext ∧ r.unpack ext.pack = .ok again ∧
      again.pack ≠ ext.pack ∧ again.saved .empty ≠ ext.saved .empty := by
  intro r record
  exact ⟨by decide,
    .connTrack ⟨0, 0, 0, 0, 0, "\ufffd\ufffd\ufffd\ufffdaaé", "", false⟩,
    .connTrack ⟨0, 0, 0, 0, 0, "\ufffd\ufffd\ufffd\ufffdaa\ufffd", "", false⟩,
    by with_unfolding_all rfl, by with_unfolding_all rfl, by decide, by decide⟩

end Registration

end FilterRecord
