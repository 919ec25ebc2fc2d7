/- Proofs/Journal
   digest: All events on the way to an error are notes for developers, but for one warning. -/

import Mathlib.Tactic.Common
import FilterRecord.Journal

set_option autoImplicit false
set_option relaxedAutoImplicit false

namespace FilterRecord.Journal

open Log (Event)
open Text.Quoted (Repertoire)

variable {repertoire : Repertoire} {host : Context} {ext : Extension} {events more : List Event}

/-- Notes for developers: every event has one of the two lowest levels. -/
def Notes (events : List Event) : Prop :=
  ∀ event ∈ events, event.level = .debug ∨ event.level = .trace

theorem notes_nil : Notes [] := fun _ absent => absurd absent List.not_mem_nil

theorem Notes.append (first : Notes events) (second : Notes more) : Notes (events ++ more) :=
  List.forall_mem_append.mpr ⟨first, second⟩

theorem Notes.cons {event : Event} (level : event.level = .debug ∨ event.level = .trace)
    (rest : Notes events) : Notes (event :: events) :=
  List.forall_mem_cons.mpr ⟨level, rest⟩

theorem notes_singleton {event : Event} (level : event.level = .debug ∨ event.level = .trace) :
    Notes [event] :=
  notes_nil.cons level

/-! ## Files of the host -/

theorem ofDeviceGroups_cases (path : String) (contents : Names.Contents) :
    Notes [ofDeviceGroups path contents] ∨
      ∃ fault, (DeviceGroups.ofOptionalFile path contents).2 = some fault ∧
        ofDeviceGroups path contents = mapWarning fault := by
  unfold ofDeviceGroups
  split
  case h_1 => exact .inl (notes_singleton (.inl rfl))
  case h_2 fault answer => exact .inr ⟨fault, by rw [answer], rfl⟩
  case h_3 => exact .inl (notes_singleton (.inl rfl))

theorem notes_ofAccountText (text : String) : Notes (ofAccountText repertoire text) := by
  intro event member
  obtain ⟨line, -, rfl⟩ := List.mem_map.mp member
  exact .inr rfl

theorem notes_ofAccounts (passwd group : String × Names.Contents) :
    Notes (ofAccounts repertoire passwd group) := by
  unfold ofAccounts
  split
  · exact ((notes_ofAccountText _).append (notes_ofAccountText _)).append
      (notes_singleton (.inl rfl))
  · exact notes_nil

/-! ## Options -/

theorem notes_ofOccurrence (o : Options.Occurrence) : Notes (ofOccurrence repertoire o) := by
  refine Notes.append (fun event member => ?_) (notes_singleton (.inl rfl))
  obtain ⟨argument, -, rfl⟩ := Option.map_eq_some_iff.mp (Option.mem_toList.mp member)
  exact .inr rfl

theorem notes_ofOperation (t : RevisionTable) (revision : UInt8) (hasWord : Bool)
    (o : Options.Occurrence) (op : Operation) : Notes (ofOperation t revision hasWord o op) := by
  unfold ofOperation
  split
  · exact notes_singleton (.inl rfl)
  · split
    · exact notes_singleton (.inr rfl)
    · exact notes_nil

theorem notes_ofApply (ext : Extension) (o : Options.Occurrence) : Notes (ofApply ext o) := by
  unfold ofApply
  split
  case h_1 | h_2 | h_3 =>
    split
    · exact notes_ofOperation _ _ _ _ _
    · exact notes_nil
  all_goals exact notes_nil

theorem notes_ofOccurrences (occurrences : List Options.Occurrence) (ext : Extension) :
    Notes (ofOccurrences repertoire host ext occurrences) := by
  induction occurrences generalizing ext with
  | nil => exact notes_nil
  | cons o rest ih =>
    unfold ofOccurrences
    refine ((notes_ofOccurrence o).append (notes_ofApply ext o)).append ?_
    split
    · exact ih _
    · exact notes_nil

/-! ## Records and rules -/

theorem notes_ofPack (ext : Extension) : Notes (ofPack ext) := by
  unfold ofPack
  split
  · exact notes_singleton (.inr rfl)
  · exact notes_nil

theorem notes_ofShow (ext : Extension) : Notes (ofShow ext) := by
  unfold ofShow
  split
  · exact notes_singleton (.inr rfl)
  · exact notes_singleton (.inr rfl)
  · split
    · exact notes_nil
    · exact notes_singleton (.inr rfl)
  · exact notes_nil

theorem notes_ofStatement (ext : Extension) : Notes (ofStatement ext) := by
  unfold ofStatement
  split
  · split
    · exact notes_nil
    · exact notes_singleton (.inr rfl)
  · exact notes_nil

theorem notes_ofView (ext : Extension) : Notes (ofView ext) :=
  (((notes_ofPack ext).append (notes_ofShow ext)).append (notes_ofShow ext)).append
    (notes_ofStatement ext)

theorem notes_ofLookup (name : String) (revision : Option UInt8) :
    Notes (ofLookup name revision) := by
  unfold ofLookup
  split
  · exact notes_singleton (.inl rfl)
  · exact notes_nil

theorem notes_ofRecord {views : Extension → List Event} (viewed : ∀ ext, Notes (views ext))
    (name : String) (revision : UInt8) (record : Field.Bytes) :
    Notes (ofRecord repertoire views name revision record) := by
  refine (notes_ofLookup name (some revision)).append ?_
  split
  · exact notes_nil
  · split
    · exact (viewed _).cons (.inr rfl)
    · exact notes_nil

/-- A rule that is not accepted makes no record, so that nobody is told of one. -/
theorem notes_ofParse {name : String} {revision : Option UInt8} {tokens : List String}
    {numeric : Bool} {e : RuleError}
    (refused : Rule.parse name revision tokens numeric host = .error e) :
    Notes (ofParse repertoire name revision tokens host) := by
  refine (notes_ofLookup name revision).append ?_
  split
  · exact notes_nil
  case h_2 r found =>
    refine (notes_ofOccurrences _ r.create).append ?_
    split
    case h_1 accepted =>
      simp [Rule.parse, found, accepted, bind, Except.bind, pure, Except.pure] at refused
    case h_2 => exact notes_nil

end FilterRecord.Journal
