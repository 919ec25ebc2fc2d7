/- Proofs/Target/IpMark
   digest: The words that save an IPMARK record lead a fresh rule to the same record. -/

import FilterRecord.Proofs.Arguments.Writing
import FilterRecord.Proofs.Mask.Form

set_option autoImplicit false
set_option relaxedAutoImplicit false

namespace FilterRecord.IpMark

open Text
open Options (Entry Occurrence Operand Register Shows shown)
open Extension (Leads)

/-- A record whose selector, or whose flags, select one of the two addresses. -/
def Storable : IpMark → Prop
  | address _ _ selector _ => selector ≤ 1
  | masked _ flags _ => flags ≤ 1

theorem storable_create (revision : UInt8) : (create revision).Storable := by
  unfold create
  split
  · exact (by decide : (0 : UInt8) ≤ 1)
  · exact (by decide : (0 : UInt8) ≤ 1)
  · exact (by decide : (0 : UInt8) ≤ 1)

private theorem storable_selectSource {m : IpMark} (storable : m.Storable) :
    m.selectSource.Storable := by
  cases m with
  | address => exact (by decide : (0 : UInt8) ≤ 1)
  | masked => exact storable

private theorem storable_selectDestination {m : IpMark} (storable : m.Storable) :
    m.selectDestination.Storable := by
  cases m with
  | address => exact UInt8.le_refl 1
  | masked word flags shift =>
    have known : flags ≤ 1 := storable
    have two : flags = 0 ∨ flags = 1 := by
      simp only [UInt8.le_iff_toNat_le, ← UInt8.toNat_inj, UInt8.reduceToNat] at known ⊢
      omega
    rcases two with rfl | rfl
    · exact (by decide : (0 ||| 1 : UInt8) ≤ 1)
    · exact (by decide : (1 ||| 1 : UInt8) ≤ 1)

private theorem storable_applyOperation {m next : IpMark} {o : Occurrence} (storable : m.Storable)
    (ok : m.applyOperation o = .ok next) : next.Storable := by
  unfold applyOperation at ok
  split at ok
  · cases ok
  · split at ok
    · cases ok
    · split at ok
      · rename_i stored
        cases ok
        unfold store at stored
        split at stored
        · cases stored
          exact storable
        · cases stored
      · cases ok

theorem storable_apply {m next : IpMark} {o : Occurrence} (storable : m.Storable)
    (ok : m.apply o = .ok next) : next.Storable := by
  unfold apply at ok
  split at ok
  · split at ok
    · cases ok
      exact storable_selectSource storable
    · split at ok
      · cases ok
        exact storable_selectDestination storable
      · cases ok
  · cases ok
    exact storable_selectSource storable
  · cases ok
    exact storable_selectDestination storable
  · cases ok
    cases m <;> exact storable
  · split at ok
    · cases ok
      exact storable
    · cases ok
  · split at ok
    · cases ok
      exact storable
    · cases ok
  · exact storable_applyOperation storable ok

private theorem apply_extension {host : Context} {m next : IpMark} {o : Occurrence}
    (applied : m.apply o = .ok next) :
    (Extension.ipMark m).apply host o = (.ipMark next, .ok ()) := by
  simp [Extension.apply, applied, Options.commit, Except.map]

private theorem finalCheck_of_seen {m : IpMark} {seen : Register}
    (selected : ¬ seen.Misses addressBits) : (Extension.ipMark m).finalCheck seen = .ok () := by
  have found : seen.bits &&& addressBits ≠ 0 := selected
  simp [Extension.finalCheck, finalCheck, Register.intersects, found]

private def addressRow : Entry := ⟨"addr", Id.address, .text, addressBits, false⟩

private def sourceRow : Entry := ⟨"src-addr", Id.source, .flag, addressBits, false⟩

private def destinationRow : Entry := ⟨"dst-addr", Id.destination, .flag, addressBits, false⟩

private def shiftRow : Entry := ⟨"shift", Id.shift, .word8, 0, false⟩

private def andRow : Entry := ⟨"and-mask", Id.andMask, .word32, 0, false⟩

private def orRow : Entry := ⟨"or-mask", Id.orMask, .word32, 0, false⟩

variable (host : Context) {m : IpMark} {seen : Register}

private theorem leads_shift (unset : m.withShift 0 = m) (shift : UInt8)
    (free : seen.Misses (shiftRow.bit ||| shiftRow.excluded)) :
    Leads host (Extension.ipMark m).grammar (shiftWords "--" shift) seen (.ipMark m)
      (seen.after (shift != 0) shiftRow) (.ipMark (m.withShift shift)) := by
  have words : shiftWords "--" shift =
      shown (shift != 0) false (("--" ++ shiftRow.name) ::
        (some (Numeral.decimal shift.toNat)).toList) := by
    by_cases zero : shift = 0 <;> simp [shiftWords, shown, zero, shiftRow]
  have row : shiftRow ∈ table := by decide
  rw [words]
  refine Extension.leads_shown (Extension.ipMark _).legible_grammar row (fun _ => free) (by simp)
    (.word8 shift)
    (fun _ => apply_extension rfl) ?_
  intro hidden
  have zero : shift = 0 := by simpa using hidden
  rw [zero, unset]

private theorem leads_mask {e : Entry} (row : e ∈ table) (kind : e.kind = .word32)
    (make : UInt32 → IpMark) (fresh bits : UInt32)
    (applied : ∀ o : Occurrence, o.entry = e → o.operand = .word32 bits →
      (make fresh).apply o = .ok (make bits))
    (free : seen.Misses (e.bit ||| e.excluded)) :
    Leads host (Extension.ipMark (make fresh)).grammar
      (if bits = fresh then [] else ["--" ++ e.name, Numeral.hex bits.toNat])
      seen (.ipMark (make fresh)) (seen.after (bits != fresh) e) (.ipMark (make bits)) := by
  have words : (if bits = fresh then [] else ["--" ++ e.name, Numeral.hex bits.toNat]) =
      shown (bits != fresh) false
        (("--" ++ e.name) :: (some (Numeral.hex bits.toNat)).toList) := by
    by_cases same : bits = fresh <;> simp [shown, same]
  have shows : Shows e.kind (some (Numeral.hex bits.toNat)) (.word32 bits) := by
    rw [kind]
    exact .word32 bits
  rw [words]
  refine Extension.leads_shown (Extension.ipMark _).legible_grammar row (fun _ => free) (by simp)
    shows (fun _ => apply_extension (applied _ rfl rfl)) ?_
  intro hidden
  have same : bits = fresh := by simpa using hidden
  rw [same]

private theorem leads_address {selector : UInt8} (known : selector ≤ 1) :
    Leads host (Extension.ipMark (address MaskedWord.fullMask 0 0 0)).grammar
      ["--addr", if selector = 0 then "src" else "dst"]
      .empty (.ipMark (address MaskedWord.fullMask 0 0 0)) (Register.empty.add addressRow)
      (.ipMark (address MaskedWord.fullMask 0 selector 0)) := by
  have row : addressRow ∈ table := by decide
  have two : selector = 0 ∨ selector = 1 := by
    simp only [UInt8.le_iff_toNat_le, ← UInt8.toNat_inj, UInt8.reduceToNat] at known ⊢
    omega
  rcases two with rfl | rfl
  · exact Extension.leads_plain (Extension.ipMark _).legible_grammar row (Register.empty_misses _)
      (.text "src") (apply_extension rfl)
  · exact Extension.leads_plain (Extension.ipMark _).legible_grammar row (Register.empty_misses _)
      (.text "dst") (apply_extension rfl)

private def selected (e : Entry) (shift : UInt8) : Register :=
  (Register.empty.add e).after (shift != 0) shiftRow

private theorem restored_address (host : Context) (andMask orMask : UInt32) {selector : UInt8}
    (shift : UInt8) (known : selector ≤ 1) :
    ∃ seen, (Extension.ipMark (address MaskedWord.fullMask 0 0 0)).applyTokens host
      (address andMask orMask selector shift).savedWords =
        (.ipMark (address andMask orMask selector shift), .ok seen) := by
  have named : ¬ 1 < selector := UInt8.not_lt.mpr known
  have words : (address andMask orMask selector shift).savedWords =
      ["--addr", if selector = 0 then "src" else "dst"] ++ shiftWords "--" shift ++
      (if andMask = MaskedWord.fullMask then []
        else ["--" ++ andRow.name, Numeral.hex andMask.toNat]) ++
      (if orMask = 0 then [] else ["--" ++ orRow.name, Numeral.hex orMask.toNat]) := if_neg named
  have shift_free :
      (Register.empty.add addressRow).Misses (shiftRow.bit ||| shiftRow.excluded) := by
    decide
  have and_free : (selected addressRow shift).Misses (andRow.bit ||| andRow.excluded) :=
    Register.after_misses.mpr ⟨by decide, fun _ => by decide⟩
  have or_free : ((selected addressRow shift).after (andMask != MaskedWord.fullMask) andRow).Misses
      (orRow.bit ||| orRow.excluded) :=
    Register.after_misses.mpr
      ⟨Register.after_misses.mpr ⟨by decide, fun _ => by decide⟩, fun _ => by decide⟩
  have and_row : andRow ∈ table := by decide
  have or_row : orRow ∈ table := by decide
  have led := Extension.leads_append (leads_address host known)
    (leads_shift host (m := address MaskedWord.fullMask 0 selector 0) rfl shift shift_free)
  have masked := leads_mask host and_row rfl (fun bits => address bits 0 selector shift)
    MaskedWord.fullMask andMask
    (fun o entry operand => by simp [apply, entry, operand, andRow]) and_free
  have turned := leads_mask host or_row rfl (fun bits => address andMask bits selector shift)
    0 orMask (fun o entry operand => by simp [apply, entry, operand, orRow]) or_free
  rw [words]
  refine ⟨_, Extension.applyTokens_of_leads
    (Extension.leads_append (Extension.leads_append led masked) turned) (finalCheck_of_seen ?_)⟩
  intro missed
  have start := (Register.after_misses.mp (Register.after_misses.mp
    (Register.after_misses.mp missed).1).1).1
  exact absurd start (by decide)

private theorem exists_row (form : Form) : ∃ e ∈ table, e.name = form.option optionNames ∧
    e.kind = form.kind ∧ e.id ∉ [Id.address, Id.source, Id.destination, Id.shift, Id.andMask,
      Id.orMask] ∧ operation? e.id form.converted = some form.operation ∧
    (∀ address ∈ [sourceRow, destinationRow], address.bit &&& (e.bit ||| e.excluded) = 0) ∧
    shiftRow.bit &&& (e.bit ||| e.excluded) = 0 := by
  cases form with
  | and bits =>
    exact ⟨⟨"and-mark", Id.andMark, .word32, operationBits, false⟩, by decide, rfl, rfl, by decide,
      rfl, by decide, by decide⟩
  | or bits =>
    exact ⟨⟨"or-mark", Id.orMark, .word32, operationBits, false⟩, by decide, rfl, rfl, by decide,
      rfl, by decide, by decide⟩
  | xor bits =>
    exact ⟨⟨"xor-mark", Id.xorMark, .word32, operationBits, false⟩, by decide, rfl, rfl, by decide,
      rfl, by decide, by decide⟩
  | set value =>
    exact ⟨⟨"set-mark", Id.setMark, .masked, operationBits, false⟩, by decide, rfl, rfl, by decide,
      rfl, by decide, by decide⟩
  | setMasked value mask =>
    exact ⟨⟨"set-xmark", Id.setXMark, .masked, operationBits, false⟩, by decide, rfl, rfl,
      by decide, rfl, by decide, by decide⟩

private theorem masked_supported (option : String) (kind : Operation.Kind) :
    revisions.check option 2 kind = .ok () := by
  cases kind <;> rfl

private theorem apply_operation {word : MaskedWord} {flags shift : UInt8} {o : Occurrence}
    {op : Operation} (other : o.entry.id ∉ [Id.address, Id.source, Id.destination, Id.shift,
      Id.andMask, Id.orMask]) (stated : operation? o.entry.id o.operand = some op) :
    (masked word flags shift).apply o = .ok (masked op.encode flags shift) := by
  have supported := masked_supported o.entry.name op.kind
  simp only [List.mem_cons, List.not_mem_nil, or_false, not_or] at other
  unfold apply
  split
  case h_7 => simp [applyOperation, stated, revision, supported, store]
  all_goals simp_all

private theorem leads_form (word : MaskedWord) (flags shift : UInt8) {address : Entry}
    (known : address ∈ [sourceRow, destinationRow]) :
    ∃ e, Leads host (Extension.ipMark (masked .zero flags shift)).grammar
      (word.ruleWords optionNames "--") (selected address shift)
      (.ipMark (masked .zero flags shift)) ((selected address shift).add e)
      (.ipMark (masked word flags shift)) := by
  obtain ⟨e, row, name, kind, other, stated, after_address, after_shift⟩ := exists_row word.form
  have shows : Shows e.kind (some word.form.argument) word.form.converted := by
    rw [kind]
    exact word.form.shows_argument
  have free : (selected address shift).Misses (e.bit ||| e.excluded) :=
    Register.after_misses.mpr ⟨Register.add_misses.mpr ⟨Register.empty_misses _,
      after_address address known⟩, fun _ => after_shift⟩
  refine ⟨e, ?_⟩
  rw [MaskedWord.ruleWords, ← name]
  refine Extension.leads_plain (Extension.ipMark _).legible_grammar row free shows
    (apply_extension ?_)
  rw [apply_operation other stated, word.encode_form]

private theorem leads_flags {flags : UInt8} (known : flags ≤ 1) :
    ∃ e ∈ [sourceRow, destinationRow], Leads host (Extension.ipMark (masked .zero 0 0)).grammar
      ["--" ++ (if flags &&& 1 = 0 then "src" else "dst") ++ "-addr"]
      .empty (.ipMark (masked .zero 0 0)) (Register.empty.add e)
      (.ipMark (masked .zero flags 0)) := by
  have source_row : sourceRow ∈ table := by decide
  have destination_row : destinationRow ∈ table := by decide
  have two : flags = 0 ∨ flags = 1 := by
    simp only [UInt8.le_iff_toNat_le, ← UInt8.toNat_inj, UInt8.reduceToNat] at known ⊢
    omega
  rcases two with rfl | rfl
  · exact ⟨sourceRow, by simp, Extension.leads_plain (Extension.ipMark _).legible_grammar source_row
      (Register.empty_misses _) .flag (apply_extension rfl)⟩
  · exact ⟨destinationRow, by simp, Extension.leads_plain (Extension.ipMark _).legible_grammar
      destination_row (Register.empty_misses _) .flag (apply_extension rfl)⟩

private theorem restored_masked (host : Context) (word : MaskedWord) {flags : UInt8} (shift : UInt8)
    (known : flags ≤ 1) :
    ∃ seen, (Extension.ipMark (masked .zero 0 0)).applyTokens host
      (masked word flags shift).savedWords = (.ipMark (masked word flags shift), .ok seen) := by
  obtain ⟨address, row, first⟩ := leads_flags host known
  have shift_free : (Register.empty.add address).Misses (shiftRow.bit ||| shiftRow.excluded) := by
    have apart : ∀ e ∈ [sourceRow, destinationRow],
        (Register.empty.add e).Misses (shiftRow.bit ||| shiftRow.excluded) := by decide
    exact apart address row
  have second := leads_shift host (m := masked .zero flags 0) rfl shift shift_free
  obtain ⟨e, third⟩ := leads_form host word flags shift row
  refine ⟨_, Extension.applyTokens_of_leads
    (Extension.leads_append (Extension.leads_append first second) third) (finalCheck_of_seen ?_)⟩
  intro missed
  have start := (Register.after_misses.mp (Register.add_misses.mp missed).1).1
  have selects : ∀ e ∈ [sourceRow, destinationRow],
      ¬ (Register.empty.add e).Misses addressBits := by decide
  exact selects address row start

theorem restored (host : Context) {m : IpMark} (storable : m.Storable) :
    ∃ seen, (Extension.ipMark (create m.revision)).applyTokens host m.savedWords =
      (.ipMark m, .ok seen) := by
  cases m with
  | address andMask orMask selector shift =>
    exact restored_address host andMask orMask shift storable
  | masked word flags shift => exact restored_masked host word shift storable

private theorem solid_shiftWords (shift : UInt8) : ∀ w ∈ shiftWords "--" shift, Solid w := by
  intro w hw
  unfold shiftWords at hw
  split at hw
  · exact absurd hw (by simp)
  · exact solid_pair (by decide) (solid_decimal _) w hw

private theorem solid_mask {name : String} (solid : Solid name) (hidden : Prop) [Decidable hidden]
    (bits : UInt32) : ∀ w ∈ if hidden then [] else [name, Numeral.hex bits.toNat], Solid w := by
  intro w hw
  split at hw
  · exact absurd hw (by simp)
  · exact solid_pair solid (solid_hex _) w hw

theorem solid_savedWords (m : IpMark) : ∀ w ∈ m.savedWords, Solid w := by
  intro w hw
  cases m with
  | address andMask orMask selector shift =>
    simp only [savedWords, ruleWords] at hw
    split at hw
    · exact absurd hw (by simp)
    · simp only [List.mem_append] at hw
      rcases hw with ((address | hw) | hw) | hw
      · refine solid_pair (by decide) ?_ w address
        split <;> decide
      · exact solid_shiftWords shift w hw
      · exact solid_mask (by decide) _ andMask w hw
      · exact solid_mask (by decide) _ orMask w hw
  | masked word flags shift =>
    simp only [savedWords, ruleWords, List.mem_append] at hw
    rcases hw with (address | hw) | hw
    · rw [List.mem_singleton.mp address]
      split <;> decide
    · exact solid_shiftWords shift w hw
    · exact word.solid_ruleWords (by decide) w hw

end FilterRecord.IpMark
