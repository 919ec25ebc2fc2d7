/- Proofs/Target/Operations
   digest: A target stores the operation that an option denotes, or its revision refuses it. -/

import FilterRecord.Proofs.Arguments.Spelling
import FilterRecord.Proofs.Mask.Operation
import FilterRecord.Proofs.Target.Layout

set_option autoImplicit false
set_option relaxedAutoImplicit false

namespace FilterRecord

open Text
open Options (Entry Occurrence Operand OperandKind readMasked?)

def OptionNames.all (names : OptionNames) : List String :=
  [names.set, names.and, names.or, names.xor, names.setMasked]

/-- The operation that an option with its argument denotes. A value with a full mask is a plain
value. -/
inductive OptionNames.Denotes (names : OptionNames) : String → String → Operation → Prop
  | set {text : String} {value : UInt32} :
    readMasked? text = some ⟨value, MaskedWord.fullMask⟩ → Denotes names names.set text (.set value)
  | setMasked {text : String} {value mask : UInt32} : readMasked? text = some ⟨value, mask⟩ →
    mask ≠ MaskedWord.fullMask → Denotes names names.set text (.setMasked value mask)
  | and {text : String} {bits : UInt32} : Numeral.word32? text.toList = some bits →
    Denotes names names.and text (.and bits)
  | or {text : String} {bits : UInt32} : Numeral.word32? text.toList = some bits →
    Denotes names names.or text (.or bits)
  | xor {text : String} {bits : UInt32} : Numeral.word32? text.toList = some bits →
    Denotes names names.xor text (.xor bits)
  | setXor {text : String} {value mask : UInt32} : readMasked? text = some ⟨value, mask⟩ →
    Denotes names names.setMasked text (.setXor value mask)

namespace Grammar.Knows

variable {g : Grammar} {o : Occurrence}

theorem argument_eq (known : g.Knows o) (takes : o.entry.kind ≠ .flag) :
    o.argument = some o.rawArgument := by
  have given : o.argument.isSome = true := by
    rw [known.argument]
    simpa [Entry.takesArgument] using takes
  obtain ⟨text, stated⟩ := Option.isSome_iff_exists.mp given
  simp [Occurrence.rawArgument, stated]

theorem operand_text (known : g.Knows o) (kind : o.entry.kind = .text) :
    o.operand = .text o.rawArgument := by
  have read := known.operand
  rw [known.argument_eq (by simp [kind])] at read
  simpa [Operand.read, Operand.ofText, kind, eq_comm] using read

theorem operand_masked (known : g.Knows o) (kind : o.entry.kind = .masked) {w : MaskedWord}
    (number : readMasked? o.rawArgument = some w) : o.operand = .masked w := by
  have read := known.operand
  rw [known.argument_eq (by simp [kind])] at read
  simpa [Operand.read, Operand.ofText, kind, number, eq_comm] using read

theorem operand_word32 (known : g.Knows o) (kind : o.entry.kind = .word32) {bits : UInt32}
    (number : Numeral.word32? o.rawArgument.toList = some bits) : o.operand = .word32 bits := by
  have read := known.operand
  rw [known.argument_eq (by simp [kind])] at read
  obtain ⟨n, bounded, rfl⟩ := Option.map_eq_some_iff.mp number
  simpa [Operand.read, Operand.ofText, kind, Operand.bounded, bounded, Except.map, eq_comm]
    using read

theorem exists_masked (known : g.Knows o) (kind : o.entry.kind = .masked) :
    ∃ w, readMasked? o.rawArgument = some w := by
  have read := known.operand
  rw [known.argument_eq (by simp [kind])] at read
  cases number : readMasked? o.rawArgument with
  | some w => exact ⟨w, rfl⟩
  | none => simp [Operand.read, Operand.ofText, kind, number] at read

theorem exists_word32 (known : g.Knows o) (kind : o.entry.kind = .word32) :
    ∃ bits, Numeral.word32? o.rawArgument.toList = some bits := by
  have read := known.operand
  rw [known.argument_eq (by simp [kind])] at read
  simp only [Operand.read, Operand.ofText, kind] at read
  obtain ⟨n, bounded, -⟩ := map_eq_ok_iff.mp read
  obtain ⟨whole, below⟩ := Options.bounded_ok bounded
  exact ⟨UInt32.ofNat n, by
    rw [Numeral.word32?, Numeral.bounded?_of_whole? whole (Nat.zero_le n) below, Option.map_some]⟩

end Grammar.Knows

/-- A row whose option, where it has one of the names, states the operation of that name with its
converted argument. -/
structure Options.Entry.Stating (names : OptionNames) (States : Nat → Operand → Operation → Prop)
    (e : Entry) : Prop where
  set : e.name = names.set →
    e.kind = .masked ∧ ∀ w, States e.id (.masked w) (.ofValueMask w.value w.mask)
  and : e.name = names.and → e.kind = .word32 ∧ ∀ bits, States e.id (.word32 bits) (.and bits)
  or : e.name = names.or → e.kind = .word32 ∧ ∀ bits, States e.id (.word32 bits) (.or bits)
  xor : e.name = names.xor → e.kind = .word32 ∧ ∀ bits, States e.id (.word32 bits) (.xor bits)
  setXor : e.name = names.setMasked →
    e.kind = .masked ∧ ∀ w, States e.id (.masked w) (.setXor w.value w.mask)

theorem OptionNames.Denotes.states {names : OptionNames} {g : Grammar} {o : Occurrence}
    {op : Operation} {States : Nat → Operand → Operation → Prop} (known : g.Knows o)
    (stating : o.entry.Stating names States)
    (denotes : names.Denotes o.entry.name o.rawArgument op) :
    States o.entry.id o.operand op := by
  generalize named : o.entry.name = name at denotes
  generalize written : o.rawArgument = text at denotes
  cases denotes with
  | set number =>
    obtain ⟨kind, states⟩ := stating.set named
    rw [known.operand_masked kind (written ▸ number)]
    simpa [Operation.ofValueMask] using states ⟨_, MaskedWord.fullMask⟩
  | @setMasked _ value mask number part =>
    obtain ⟨kind, states⟩ := stating.set named
    rw [known.operand_masked kind (written ▸ number)]
    simpa [Operation.ofValueMask, part] using states ⟨value, mask⟩
  | and number =>
    obtain ⟨kind, states⟩ := stating.and named
    rw [known.operand_word32 kind (written ▸ number)]
    exact states _
  | or number =>
    obtain ⟨kind, states⟩ := stating.or named
    rw [known.operand_word32 kind (written ▸ number)]
    exact states _
  | xor number =>
    obtain ⟨kind, states⟩ := stating.xor named
    rw [known.operand_word32 kind (written ▸ number)]
    exact states _
  | setXor number =>
    obtain ⟨kind, states⟩ := stating.setXor named
    rw [known.operand_masked kind (written ▸ number)]
    exact states ⟨_, _⟩

theorem OptionNames.exists_set (names : OptionNames) {text : String} {w : MaskedWord}
    (number : readMasked? text = some w) : ∃ op, names.Denotes names.set text op := by
  obtain ⟨value, mask⟩ := w
  by_cases full : mask = MaskedWord.fullMask
  · exact ⟨_, .set (full ▸ number)⟩
  · exact ⟨_, .setMasked number full⟩

theorem OptionNames.exists_denoted {names : OptionNames} {g : Grammar} {o : Occurrence}
    {States : Nat → Operand → Operation → Prop} (known : g.Knows o)
    (stating : o.entry.Stating names States) (named : o.entry.name ∈ names.all) :
    ∃ op, names.Denotes o.entry.name o.rawArgument op := by
  simp only [all, List.mem_cons, List.not_mem_nil, or_false] at named
  rcases named with named | named | named | named | named
  · obtain ⟨w, number⟩ := known.exists_masked (stating.set named).1
    rw [named]
    exact names.exists_set number
  · obtain ⟨bits, number⟩ := known.exists_word32 (stating.and named).1
    rw [named]
    exact ⟨_, .and number⟩
  · obtain ⟨bits, number⟩ := known.exists_word32 (stating.or named).1
    rw [named]
    exact ⟨_, .or number⟩
  · obtain ⟨bits, number⟩ := known.exists_word32 (stating.xor named).1
    rw [named]
    exact ⟨_, .xor number⟩
  · obtain ⟨⟨value, mask⟩, number⟩ := known.exists_masked (stating.setXor named).1
    rw [named]
    exact ⟨_, .setXor number⟩

namespace Mark

variable {m next : Mark} {o : Occurrence} {op : Operation}

/-- What a record makes of a mark. It is not known for a mode that has no name. -/
def effect? (old : UInt32) : Mark → Option UInt64
  | plain mark => some mark
  | moded mark mode =>
    match mode with
    | 0 => some mark
    | 1 => some (old.toUInt64 &&& mark)
    | 2 => some (old.toUInt64 ||| mark)
    | _ => none
  | masked word => some (word.apply old).toUInt64

/-- Each revision allows the operations that its layout has room for. -/
theorem allows_eq_store (m : Mark) (op : Operation) :
    (revisions.capabilities m.revision).allows op.kind = (m.store op).isSome := by
  cases m <;> cases op <;>
    simp only [revision, Operation.kind, store, Option.isSome_some, Option.isSome_none] <;> decide

theorem apply_eq_store (stated : operation? o.entry.id o.operand = some op) :
    m.apply o = match m.store op with
      | some next => .ok next
      | none => .error (.unsupportedOption name m.revision o.entry.name false) := by
  simp only [apply, stated, RevisionTable.check, allows_eq_store]
  cases m.store op <;> rfl

theorem effect_store (stored : m.store op = some next) (old : UInt32) :
    next.effect? old = some (op.effect old).toUInt64 := by
  cases m with
  | plain mark =>
    cases op with
    | set value =>
      cases stored
      rfl
    | and | or | xor | setMasked | setXor => cases stored
  | moded mark mode =>
    cases op with
    | set value =>
      cases stored
      rfl
    | and bits =>
      cases stored
      simp [effect?, Operation.effect]
    | or bits =>
      cases stored
      simp [effect?, Operation.effect]
    | xor | setMasked | setXor => cases stored
  | masked word =>
    cases stored
    rw [effect?, Operation.apply_encode]

theorem stating {e : Entry} (row : e ∈ table) :
    e.Stating optionNames fun id operand op => operation? id operand = some op := by
  simp only [table, List.mem_cons, List.not_mem_nil, or_false] at row
  rcases row with rfl | rfl | rfl | rfl | rfl <;> constructor <;> simp [optionNames, operation?]

end Mark

namespace Classify

variable {c next : Classify} {o : Occurrence} {op : Operation}

def effect (old : UInt32) : Classify → UInt32
  | plain priority => priority
  | masked word => word.apply old

/-- The operation that an option denotes: a handle replaces, any other argument is read as that of
a mark. -/
inductive Denotes (o : Occurrence) : Operation → Prop
  | handle {priority : UInt32} : o.entry.name = optionNames.set →
    readHandle? o.rawArgument = some priority → Denotes o (.set priority)
  | word {op : Operation} : (o.entry.name = optionNames.set → readHandle? o.rawArgument = none) →
    optionNames.Denotes o.entry.name o.rawArgument op → Denotes o op

/-- The argument is no handle, and the revision reads nothing else or there is nothing to read. -/
def Unread (c : Classify) (o : Occurrence) : Prop :=
  o.entry.name = optionNames.set ∧ readHandle? o.rawArgument = none ∧
    (c.revision = 0 ∨ readMasked? o.rawArgument = none)

theorem allows_eq_store (c : Classify) (op : Operation) :
    (revisions.capabilities c.revision).allows op.kind = (c.store op).isSome := by
  cases c <;> cases op <;>
    simp only [revision, Operation.kind, store, Option.isSome_some, Option.isSome_none] <;> decide

theorem apply_eq_store (stated : c.operation o = .ok op) :
    c.apply o = match c.store op with
      | some next => .ok next
      | none => .error (.unsupportedOption name c.revision o.entry.name false) := by
  simp only [apply, stated, RevisionTable.check, allows_eq_store]
  cases c.store op <;> rfl

theorem effect_store (stored : c.store op = some next) (old : UInt32) :
    next.effect old = op.effect old := by
  cases c with
  | plain priority =>
    cases op with
    | set value =>
      cases stored
      rfl
    | and | or | xor | setMasked | setXor => cases stored
  | masked word =>
    cases stored
    rw [effect, Operation.apply_encode]

private theorem row_set : ∀ e ∈ table, e.name = optionNames.set → e.id = Id.setClass ∧
    e.kind = .text := by
  decide

theorem stating {e : Entry} (row : e ∈ table) (other : e.name ≠ optionNames.set) (c : Classify) :
    e.Stating optionNames fun id operand op =>
      ∀ o : Occurrence, o.entry.id = id → o.operand = operand → c.operation o = .ok op := by
  simp only [table, List.mem_cons, List.not_mem_nil, or_false] at row
  rcases row with rfl | rfl | rfl | rfl | rfl
  · exact absurd rfl other
  all_goals
    constructor <;> simp +contextual [optionNames, operation]

private theorem readClass_word (later : c.revision ≠ 0) (named : o.entry.name = optionNames.set)
    (other : readHandle? o.rawArgument = none)
    (denotes : optionNames.Denotes o.entry.name o.rawArgument op) : c.readClass o = .ok op := by
  have room : ¬ c.revision < 1 := UInt8.not_lt.mpr (one_le_of_ne_zero later)
  generalize given : o.entry.name = name at denotes
  generalize written : o.rawArgument = text at denotes
  cases denotes with
  | set number => simp [readClass, written, written ▸ other, room, number, Operation.ofValueMask]
  | setMasked number part =>
    simp [readClass, written, written ▸ other, room, number, Operation.ofValueMask, part]
  | and => exact absurd (named.symm.trans given) (by decide)
  | or => exact absurd (named.symm.trans given) (by decide)
  | xor => exact absurd (named.symm.trans given) (by decide)
  | setXor => exact absurd (named.symm.trans given) (by decide)

theorem operation_of_denotes (known : (Extension.classify c).grammar.Knows o)
    (denotes : Denotes o op) (read : ¬ c.Unread o) : c.operation o = .ok op := by
  have row : o.entry ∈ table := known.entry
  by_cases named : o.entry.name = optionNames.set
  · obtain ⟨id, kind⟩ := row_set o.entry row named
    have read_class : c.operation o = c.readClass o := by
      simp [operation, id, known.operand_text kind]
    rw [read_class]
    cases denotes with
    | handle _ found => simp [readClass, found]
    | word other denotes =>
      refine readClass_word (fun first => ?_) named (other named) denotes
      exact read ⟨named, other named, .inl first⟩
  · cases denotes with
    | handle set _ => exact absurd set named
    | word _ denotes => exact denotes.states known (stating row named c) o rfl rfl

theorem exists_denoted (known : (Extension.classify c).grammar.Knows o)
    (named : o.entry.name ∈ optionNames.all) (read : ¬ c.Unread o) : ∃ op, Denotes o op := by
  by_cases set : o.entry.name = optionNames.set
  · cases found : readHandle? o.rawArgument with
    | some priority => exact ⟨_, .handle set found⟩
    | none =>
      cases number : readMasked? o.rawArgument with
      | none => exact absurd ⟨set, found, .inr number⟩ read
      | some w =>
        obtain ⟨op, denotes⟩ := optionNames.exists_set number
        rw [← set] at denotes
        exact ⟨op, .word (fun _ => found) denotes⟩
  · obtain ⟨op, denotes⟩ := OptionNames.exists_denoted known (stating known.entry set c) named
    exact ⟨op, .word (fun same => absurd same set) denotes⟩

theorem apply_unread (known : (Extension.classify c).grammar.Knows o) (unread : c.Unread o) :
    c.apply o = .error (.badValue name o.entry.name
      ("Bad class value \"" ++ o.rawArgument ++ "\"")) := by
  obtain ⟨named, other, nothing⟩ := unread
  obtain ⟨id, kind⟩ := row_set o.entry known.entry named
  have extension : o.extension = name := known.extension
  have refused : c.readClass o =
      .error (o.badValue ("Bad class value \"" ++ o.rawArgument ++ "\"")) := by
    rcases nothing with first | none
    · simp [readClass, other, first]
    · simp [readClass, other, none]
  simp [apply, operation, id, known.operand_text kind, refused, Occurrence.badValue, extension]

end Classify

namespace IpMark

variable {m next : IpMark} {o : Occurrence} {op : Operation}

/-- What the operation of a record makes of a mark; the first layout has none. -/
def effect? (old : UInt32) : IpMark → Option UInt32
  | address .. => none
  | masked word _ _ => some (word.apply old)

def bare : IpMark → IpMark
  | address andMask orMask selector shift => address andMask orMask selector shift
  | masked _ flags shift => masked .zero flags shift

theorem allows_eq_store (m : IpMark) (op : Operation) :
    (revisions.capabilities m.revision).allows op.kind = (m.store op).isSome := by
  cases m <;> cases op <;>
    simp only [revision, Operation.kind, store, Option.isSome_some, Option.isSome_none] <;> decide

theorem applyOperation_eq_store (stated : operation? o.entry.id o.operand = some op) :
    m.applyOperation o = match m.store op with
      | some next => .ok next
      | none => .error (.unsupportedOption name m.revision o.entry.name false) := by
  simp only [applyOperation, stated, RevisionTable.check, allows_eq_store]
  cases m.store op <;> rfl

theorem apply_of_operation? (stated : operation? o.entry.id o.operand = some op) :
    m.apply o = m.applyOperation o := by
  unfold operation? at stated
  unfold apply
  split at stated <;> simp_all

theorem effect_store (stored : m.store op = some next) :
    (∀ old, next.effect? old = some (op.effect old)) ∧ next.bare = m.bare := by
  cases m with
  | address => cases stored
  | masked word flags shift =>
    cases stored
    exact ⟨fun old => congrArg some (op.apply_encode old), rfl⟩

theorem stating {e : Entry} (row : e ∈ table) :
    e.Stating optionNames fun id operand op => operation? id operand = some op := by
  simp only [table, List.mem_cons, List.not_mem_nil, or_false] at row
  rcases row with rfl | rfl | rfl | rfl | rfl | rfl | rfl | rfl | rfl | rfl | rfl <;>
    constructor <;> simp [optionNames, operation?]

end IpMark

namespace Extension

variable {ext next : Extension} {o : Occurrence} {op : Operation}

def allows : Extension → Operation.Kind → Bool
  | mark m, kind => (Mark.revisions.capabilities m.revision).allows kind
  | classify c, kind => (Classify.revisions.capabilities c.revision).allows kind
  | ipMark m, kind => (IpMark.revisions.capabilities m.revision).allows kind
  | connTrack _, _ | socket _, _ | reversePath _, _ => false

def store : Extension → Operation → Option Extension
  | mark m, op => (m.store op).map mark
  | classify c, op => (c.store op).map classify
  | ipMark m, op => (m.store op).map ipMark
  | connTrack _, _ | socket _, _ | reversePath _, _ => none

def Operates : Extension → Occurrence → Prop
  | mark _, o => o.entry.name ∈ Mark.optionNames.all
  | classify _, o => o.entry.name ∈ Classify.optionNames.all
  | ipMark _, o => o.entry.name ∈ IpMark.optionNames.all
  | connTrack _, _ | socket _, _ | reversePath _, _ => False

/-- The operation that an option denotes. -/
def Denotes : Extension → Occurrence → Operation → Prop
  | mark _, o, op => Mark.optionNames.Denotes o.entry.name o.rawArgument op
  | classify _, o, op => Classify.Denotes o op
  | ipMark _, o, op => IpMark.optionNames.Denotes o.entry.name o.rawArgument op
  | connTrack _, _, _ | socket _, _, _ | reversePath _, _, _ => False

/-- An option whose argument is not read as an operation. -/
def Unread : Extension → Occurrence → Prop
  | classify c, o => c.Unread o
  | _, _ => False

/-- What the record makes of a 32-bit field, where that is known. The first two layouts of a mark
have room for more bits. -/
def effect? (old : UInt32) : Extension → Option UInt64
  | mark m => m.effect? old
  | classify c => some (c.effect old).toUInt64
  | ipMark m => (m.effect? old).map (·.toUInt64)
  | connTrack _ | socket _ | reversePath _ => none

def bare : Extension → Extension
  | mark m => mark (Mark.create m.revision)
  | classify c => classify (Classify.create c.revision)
  | ipMark m => ipMark m.bare
  | ext => ext

theorem allows_eq_store (ext : Extension) (op : Operation) :
    ext.allows op.kind = (ext.store op).isSome := by
  cases ext with
  | mark m => simp [allows, store, m.allows_eq_store]
  | classify c => simp [allows, store, c.allows_eq_store]
  | ipMark m => simp [allows, store, m.allows_eq_store]
  | connTrack | socket | reversePath => rfl

theorem effect_store (stored : ext.store op = some next) :
    (∀ old, next.effect? old = some (op.effect old).toUInt64) ∧ next.bare = ext.bare := by
  cases ext with
  | mark m =>
    obtain ⟨made, kept, rfl⟩ := Option.map_eq_some_iff.mp stored
    refine ⟨fun old => Mark.effect_store kept old, ?_⟩
    rw [bare, bare, Mark.revision_store kept]
  | classify c =>
    obtain ⟨made, kept, rfl⟩ := Option.map_eq_some_iff.mp stored
    refine ⟨fun old => by rw [effect?, Classify.effect_store kept], ?_⟩
    rw [bare, bare, Classify.revision_store kept]
  | ipMark m =>
    obtain ⟨made, kept, rfl⟩ := Option.map_eq_some_iff.mp stored
    obtain ⟨effect, rest⟩ := IpMark.effect_store kept
    refine ⟨fun old => by rw [effect?, effect, Option.map_some], ?_⟩
    rw [bare, bare, rest]
  | connTrack | socket | reversePath => cases stored

theorem apply_eq_store (host : Context) (known : ext.grammar.Knows o) (denotes : ext.Denotes o op)
    (read : ¬ ext.Unread o) : ext.apply host o = match ext.store op with
      | some next => (next, .ok ())
      | none => (ext, .error (.unsupportedOption ext.name ext.revision o.entry.name false)) := by
  cases ext with
  | mark m =>
    have stated := OptionNames.Denotes.states known (Mark.stating known.entry) denotes
    rw [apply, Mark.apply_eq_store stated, store]
    cases m.store op <;> rfl
  | classify c =>
    rw [apply, Classify.apply_eq_store (Classify.operation_of_denotes known denotes read), store]
    cases c.store op <;> rfl
  | ipMark m =>
    have stated := OptionNames.Denotes.states known (IpMark.stating known.entry) denotes
    rw [apply, IpMark.apply_of_operation? stated, IpMark.applyOperation_eq_store stated, store]
    cases m.store op <;> rfl
  | connTrack | socket | reversePath => exact denotes.elim

theorem exists_denoted (known : ext.grammar.Knows o) (operates : ext.Operates o)
    (read : ¬ ext.Unread o) : ∃ op, ext.Denotes o op := by
  cases ext with
  | mark m => exact OptionNames.exists_denoted known (Mark.stating known.entry) operates
  | classify c => exact Classify.exists_denoted known operates read
  | ipMark m => exact OptionNames.exists_denoted known (IpMark.stating known.entry) operates
  | connTrack | socket | reversePath => exact operates.elim

theorem apply_unread (host : Context) (known : ext.grammar.Knows o) (unread : ext.Unread o) :
    ext.apply host o = (ext, .error (.badValue ext.name o.entry.name
      ("Bad class value \"" ++ o.rawArgument ++ "\""))) := by
  cases ext with
  | classify c =>
    rw [apply, Classify.apply_unread known unread]
    rfl
  | mark | ipMark | connTrack | socket | reversePath => exact unread.elim

/-- The revision table of an extension allows exactly the operations that its layout has room for.
An option that denotes an operation is taken exactly where the table allows it, and then the record
does what the operation says and is otherwise as it was; elsewhere the option is unsupported and
changes nothing. Every option that states an operation denotes one, but for a class of which no
handle is read, nor a number from revision 1 on; that is a bad value. -/
theorem stores_denoted (host : Context) (ext : Extension) :
    (∀ op, ext.allows op.kind = (ext.store op).isSome) ∧
    (∀ o, ext.grammar.Knows o → ext.Operates o → ¬ ext.Unread o → ∃ op, ext.Denotes o op) ∧
    (∀ o, ext.grammar.Knows o → ext.Unread o → ext.apply host o =
      (ext, .error (.badValue ext.name o.entry.name
        ("Bad class value \"" ++ o.rawArgument ++ "\"")))) ∧
    ∀ o op, ext.grammar.Knows o → ext.Denotes o op → ¬ ext.Unread o →
      ((∃ next, ext.apply host o = (next, .ok ())) ↔ ext.allows op.kind = true) ∧
      (∀ next, ext.apply host o = (next, .ok ()) →
        (∀ old, next.effect? old = some (op.effect old).toUInt64) ∧ next.bare = ext.bare) ∧
      (ext.allows op.kind = false → ext.apply host o =
        (ext, .error (.unsupportedOption ext.name ext.revision o.entry.name false))) := by
  refine ⟨ext.allows_eq_store, fun o => exists_denoted, fun o => apply_unread host, ?_⟩
  intro o op known denotes read
  rw [apply_eq_store host known denotes read, ext.allows_eq_store]
  cases stored : ext.store op with
  | some made =>
    refine ⟨⟨fun _ => rfl, fun _ => ⟨made, rfl⟩⟩, ?_, fun none => by cases none⟩
    rintro next same
    cases same
    exact effect_store stored
  | none =>
    refine ⟨⟨?_, fun some => by cases some⟩, ?_, fun _ => rfl⟩
    · rintro ⟨next, same⟩
      cases same
    · rintro next same
      cases same

/-- A mark of revision 1 keeps bits. -/
theorem stores_denoted_and : ∃ next, (mark (.create 1)).apply .empty
    ⟨"MARK", 1, ⟨"and-mark", Mark.Id.andMark, .word32, Mark.operationBits, false⟩, some "0xff",
      .word32 255, false⟩ = (next, .ok ()) ∧
    ∀ old, next.effect? old = some (old &&& 255).toUInt64 := by
  have known : (mark (.create 1)).grammar.Knows ⟨"MARK", 1,
      ⟨"and-mark", Mark.Id.andMark, .word32, Mark.operationBits, false⟩, some "0xff",
      .word32 255, false⟩ :=
    ⟨rfl, rfl, by decide, by decide, by decide, by rfl⟩
  have denotes : (mark (.create 1)).Denotes ⟨"MARK", 1,
      ⟨"and-mark", Mark.Id.andMark, .word32, Mark.operationBits, false⟩, some "0xff",
      .word32 255, false⟩ (.and 255) := .and (by decide)
  obtain ⟨taken, effect, -⟩ :=
    (stores_denoted .empty (mark (.create 1))).2.2.2 _ _ known denotes id
  obtain ⟨next, applied⟩ := taken.mpr (by decide)
  exact ⟨next, applied, (effect next applied).1⟩

end Extension

end FilterRecord
