/- Proofs/Match/SocketOwners
   digest: The users and groups of a socket rule: when their numbers are allowed and read back. -/

import FilterRecord.Proofs.Arguments.Given
import FilterRecord.Proofs.Decoding
import FilterRecord.Proofs.Match.SocketWords

set_option autoImplicit false
set_option relaxedAutoImplicit false

namespace FilterRecord.SocketMatch

open Text
open Options (Entry Given Occurrence Register Shows shown)

/-- Whom a socket may belong to. -/
inductive Owner
  | user
  | group
deriving DecidableEq, Repr

namespace Owner

def row : Owner → Entry
  | user => userRow
  | group => groupRow

def table (accounts : Accounts) : Owner → AccountTable
  | user => accounts.users
  | group => accounts.groups

def range (m : SocketMatch) : Owner → CredentialRange
  | user => m.users
  | group => m.groups

def withRange (m : SocketMatch) (range : CredentialRange) : Owner → SocketMatch
  | user => { m with users := range }
  | group => { m with groups := range }

def text (accounts : Accounts) (m : SocketMatch) (owner : Owner) : String :=
  (owner.range m).display (owner.table accounts)

theorem row_mem (owner : Owner) : owner.row ∈ fullTable := by
  cases owner <;> decide

theorem row_of_name (owner : Owner) : ∀ e ∈ fullTable, e.name = owner.row.name → e = owner.row := by
  cases owner <;> decide

theorem row_kind (owner : Owner) : owner.row.kind = .text := by
  cases owner <;> rfl

end Owner

variable {accounts : Accounts} {host : Context} {m next : SocketMatch} {o : Occurrence}
  {options : List Occurrence} {owner : Owner}

theorem apply_owner {argument : String} {range : CredentialRange} (late : ¬ m.revision < 4)
    (row : o.entry = owner.row) (operand : o.operand = .text argument)
    (given : CredentialRange.ofArgument? (owner.table accounts) argument = some range) :
    m.apply accounts o =
      .ok ((owner.withRange m range).withFlag (flagOf owner.row) o.inverted) := by
  cases owner with
  | user =>
    have id : o.entry.id = Id.user := by rw [row]; rfl
    have users : CredentialRange.ofArgument? accounts.users argument = some range := given
    simp only [apply, applyExtended, applyUser, id, late, operand, users]
    rfl
  | group =>
    have id : o.entry.id = Id.group := by rw [row]; rfl
    have groups : CredentialRange.ofArgument? accounts.groups argument = some range := given
    simp only [apply, applyExtended, applyGroup, id, late, operand, groups]
    rfl

private theorem range_step (step : Step accounts m o next) (owner : Owner) :
    (o.entry.id = owner.row.id ∧ next.has (flagOf owner.row) = true ∧ ∃ argument,
      o.operand = .text argument ∧
      CredentialRange.ofArgument? (owner.table accounts) argument = some (owner.range next)) ∨
    (o.entry.id ≠ owner.row.id ∧ owner.range next = owner.range m ∧
      (m.has (flagOf owner.row) = true → next.has (flagOf owner.row) = true)) := by
  have kept {k : SocketMatch} (flag : UInt8) (inverted : Bool) (same : k.flags = m.flags)
      (given : m.has (flagOf owner.row) = true) :
      (k.withFlag flag inverted).has (flagOf owner.row) = true := by
    rw [has_withFlag, has, same, ← has, given, Bool.true_or]
  have set {k : SocketMatch} {flag : UInt8} {inverted : Bool} (own : flag &&& flag ≠ 0) :
      (k.withFlag flag inverted).has flag = true := by
    rw [has_withFlag, bne_iff_ne.mpr own, Bool.or_true]
  cases step with
  | transparent id | noWildcard id | restoreMark id | invert id | state id =>
    refine .inr ⟨?_, ?_, kept _ _ rfl⟩
    · rw [id]
      cases owner <;> decide
    · cases owner <;> rfl
  | user id _ operand read =>
    cases owner with
    | user => exact .inl ⟨id, set (by decide), _, operand, read⟩
    | group => exact .inr ⟨by rw [id]; decide, rfl, kept _ _ rfl⟩
  | group id _ operand read =>
    cases owner with
    | user => exact .inr ⟨by rw [id]; decide, rfl, kept _ _ rfl⟩
    | group => exact .inl ⟨id, set (by decide), _, operand, read⟩

/-- The owners in a record are those that one of some options states. -/
def Owned (accounts : Accounts) (options : List Occurrence) (m : SocketMatch) : Prop :=
  ∀ owner : Owner, Given options owner.row.id → m.has (flagOf owner.row) = true ∧
    ∃ o ∈ options, o.entry.id = owner.row.id ∧
      CredentialRange.ofArgument? (owner.table accounts) o.rawArgument = some (owner.range m)

theorem owned_step (owned : Owned accounts options m) (step : Step accounts m o next)
    (written : ∀ text, o.operand = .text text → o.rawArgument = text) :
    Owned accounts (options ++ [o]) next := by
  intro owner given
  rcases range_step step owner with ⟨own, flagged, argument, operand, read⟩ | ⟨other, same, kept⟩
  · exact ⟨flagged, o, by simp, own, written argument operand ▸ read⟩
  · obtain ⟨flagged, p, member, own, read⟩ :=
      owned owner ((Options.given_append.mp given).resolve_right other)
    exact ⟨kept flagged, p, List.mem_append_left _ member, own, same ▸ read⟩

/-- The option of an owner in an accepted rule is the one that the record's owners come from. -/
theorem owner_of_accepted {revision : UInt8} {words : List String} {ext : Extension}
    {final : Register}
    (accepted : (Extension.socket (create revision)).applyTokens host words = (ext, .ok final)) :
    ∃ m, ext = .socket m ∧ m.revision = revision ∧
      ∀ o ∈ ((Extension.socket (create revision)).grammar.read words).occurrences,
        ∀ owner : Owner, o.entry.name = owner.row.name → m.has (flagOf owner.row) = true ∧
          CredentialRange.ofArgument? (owner.table host.accounts) o.rawArgument =
            some (owner.range m) := by
  have ran := Extension.applyTokens_induction (P := fun options _ current => ∃ m,
    current = .socket m ∧ m.revision = revision ∧ Owned host.accounts options m) accepted
    ⟨create revision, rfl, rfl, fun _ given => absurd given Options.not_given_nil⟩ (by
      rintro _ _ _ next o ⟨k, rfl, same, owned⟩ - admitted taken
      obtain ⟨made, applied, rfl⟩ := map_eq_ok_iff.mp (commit_ok taken)
      have step := step_of_apply applied
      refine ⟨made, rfl, (revision_step step).trans same, owned_step owned step ?_⟩
      intro text operand
      simp [Occurrence.rawArgument, admitted.argument_of_text operand])
  obtain ⟨m, rfl, same, owned⟩ := ran
  refine ⟨m, rfl, same, fun o member owner named => ?_⟩
  have listed := ((Extension.apart_of_accepted accepted).1 o member).entry
  have row : o.entry ∈ fullTable := by
    have within : ∀ e ∈ (create revision).table, e ∈ fullTable := by
      unfold table
      split <;> simp
    exact within _ listed
  have own : o.entry.id = owner.row.id := by rw [owner.row_of_name _ row named]
  obtain ⟨flagged, p, known, same_id, read⟩ := owned owner ⟨o, member, own⟩
  rw [Extension.eq_of_id accepted member known (own.trans same_id.symm)]
  exact ⟨flagged, read⟩

private theorem fits_late (late : m.revision = 4) : m.Fits where
  bare zero := absurd (late.symm.trans zero) (by decide)
  early early := absurd (late ▸ early) (by decide)

private theorem range_withFlag {range : CredentialRange} {flag : UInt8} {inverted : Bool} :
    owner.range ((owner.withRange m range).withFlag flag inverted) = range := by
  cases owner <;> rfl

private theorem lookup_late : ∃ r, Registry.lookup "socket" (some 4) = .ok r ∧
    r.create = .socket (create 4) := ⟨_, rfl, rfl⟩

theorem owners_of_parsed {words : List String} {numeric : Bool} {result : RuleView}
    (parsed : Rule.parse "socket" (some 4) words numeric host = .ok result) :
    ∃ m, m.revision = 4 ∧ unpack 4 result.view.record = .ok m ∧
      result.view.saved = (Extension.socket m).saved host ∧
      ∀ o ∈ Rule.occurrences "socket" (some 4) words, ∀ owner : Owner,
        o.entry.name = owner.row.name → m.has (flagOf owner.row) = true ∧
          CredentialRange.ofArgument? (owner.table host.accounts) o.rawArgument =
            some (owner.range m) := by
  obtain ⟨r, ext, final, found, accepted, rfl⟩ := Rule.parse_ok parsed
  obtain ⟨late, found_late, created⟩ := lookup_late
  cases found.symm.trans found_late
  rw [created] at accepted
  obtain ⟨m, rfl, same, stated⟩ := owner_of_accepted accepted
  refine ⟨m, same, ?_, rfl, ?_⟩
  · have read := unpack_pack (fits_late same)
    rwa [same] at read
  · rwa [Rule.occurrences_of_lookup found, created]

theorem parse_owner {argument : String} {range : CredentialRange} (numeric : Bool)
    (given : CredentialRange.ofArgument? (owner.table host.accounts) argument = some range) :
    ∃ result m, Rule.parse "socket" (some 4) ["--" ++ owner.row.name, argument] numeric host =
        .ok result ∧ unpack 4 result.view.record = .ok m ∧ owner.range m = range := by
  obtain ⟨r, found, created⟩ := lookup_late
  have shows : Shows owner.row.kind (some argument) (.text argument) :=
    owner.row_kind ▸ .text argument
  have applied := apply_owner (m := create 4) (by decide)
    (o := (Extension.socket (create 4)).grammar.written owner.row (some argument) (.text argument)
      false) rfl rfl given
  have accepted := Extension.applyTokens_option
    (Extension.legible_grammar (.socket (create 4))) owner.row_mem shows
    (by rw [Extension.apply, applied]; rfl) rfl
  rw [← created] at accepted
  have late :
      ((owner.withRange (create 4) range).withFlag (flagOf owner.row) false).revision = 4 := by
    cases owner <;> rfl
  have read := unpack_pack (fits_late late)
  rw [late] at read
  exact ⟨_, _, Rule.parse_of_applyTokens found accepted, read, range_withFlag⟩

theorem owner_savedWords (accounts : Accounts) (late : m.revision = 4)
    (given : m.has (flagOf owner.row) = true) :
    ["--" ++ owner.row.name, owner.text accounts m] <:+: m.savedWords accounts := by
  have four : (4 : UInt8) ≤ m.revision := by rw [late]; decide
  have shows (inverted : Bool) (words : List String) : words <:+: shown true inverted words :=
    (List.suffix_append _ words).isInfix
  have within (before after : List String) {words piece : List String} (h : words <:+: piece) :
      words <:+: before ++ piece ++ after :=
    h.trans (List.infix_append before piece after)
  unfold savedWords ruleWords
  rw [if_pos four]
  refine .trans ?_ (List.suffix_append _ _).isInfix
  cases owner with
  | user =>
    have flagged : m.has Flag.user = true := given
    rw [flagged]
    exact within _ _ (shows _ _)
  | group =>
    have flagged : m.has Flag.group = true := given
    rw [flagged]
    exact (shows _ _).trans (List.suffix_append _ _).isInfix

/-! What the numbers of owners are, and what the text that shows them gives. -/

variable {words : List String} {numeric : Bool} {result : RuleView}

/-- The owners that an accepted rule states never end before they start. They are in order and none
is the reserved number, unless the rule names an account of this number. -/
theorem owners_ordered_iff (owner : Owner)
    (parsed : Rule.parse "socket" (some 4) words numeric host = .ok result)
    (given : o ∈ Rule.occurrences "socket" (some 4) words) (named : o.entry.name = owner.row.name) :
    ∃ m, unpack 4 result.view.record = .ok m ∧ (owner.range m).first ≤ (owner.range m).last ∧
      ((owner.range m).Ordered ↔
        (owner.table host.accounts).idOf? o.rawArgument ≠ some CredentialRange.reserved) := by
  obtain ⟨m, -, read, -, stated⟩ := owners_of_parsed parsed
  obtain ⟨-, made⟩ := stated o given owner named
  exact ⟨m, read, CredentialRange.ordered_iff_of_argument made⟩

private def hostOf (passwd group : String) : Context := ⟨.empty, .ofTexts passwd group⟩

private def named (words : List String) : List (String × String) :=
  (Rule.occurrences "socket" (some 4) words).map fun o => (o.entry.name, o.rawArgument)

theorem owners_ordered_proxy : ∃ result, Rule.parse "socket" (some 4)
      ["--user", "proxy", "!", "--group", "5:0x10"] false
      (hostOf "proxy:x:13:13::/bin:/bin/false\n" "") = .ok result ∧
    ∃ o ∈ Rule.occurrences "socket" (some 4) ["--user", "proxy", "!", "--group", "5:0x10"],
      o.entry.name = Owner.user.row.name ∧
      ∃ m, unpack 4 result.view.record = .ok m ∧ m.users.first ≤ m.users.last ∧
        m.users.Ordered := by
  obtain ⟨result, parsed⟩ : ∃ result, Rule.parse "socket" (some 4)
      ["--user", "proxy", "!", "--group", "5:0x10"] false
      (hostOf "proxy:x:13:13::/bin:/bin/false\n" "") = .ok result := ⟨_, by with_unfolding_all rfl⟩
  have options : named ["--user", "proxy", "!", "--group", "5:0x10"] =
      [("user", "proxy"), ("group", "5:0x10")] := by with_unfolding_all rfl
  have member : ("user", "proxy") ∈ named ["--user", "proxy", "!", "--group", "5:0x10"] := by
    simp [options]
  obtain ⟨o, given, pair⟩ := List.mem_map.mp member
  obtain ⟨name, argument⟩ := Prod.mk.inj pair
  obtain ⟨m, read, order, ordered⟩ := owners_ordered_iff .user parsed given name
  refine ⟨result, parsed, o, given, name, m, read, order, ordered.mpr ?_⟩
  rw [argument]
  decide

/-- The number of an account may be the reserved one, which no argument can state. -/
theorem owners_ordered_reserved : CredentialRange.read? "4294967295" = none ∧
    ∃ result m, Rule.parse "socket" (some 4) ["--user", "over"] false
        (hostOf "over:x:4294967295:65534::/nonexistent:/bin/false\n" "") = .ok result ∧
      unpack 4 result.view.record = .ok m ∧ ¬ m.users.Ordered := by
  refine ⟨by decide, _, _, by with_unfolding_all rfl, by with_unfolding_all rfl, ?_⟩
  rintro ⟨-, below⟩
  exact absurd below (by decide)

/-- The text that saves the owners of an accepted rule is an argument of the same option. It gives
the same owners, unless it is the name of another account. -/
theorem owners_reread_iff (owner : Owner)
    (parsed : Rule.parse "socket" (some 4) words numeric host = .ok result)
    (given : o ∈ Rule.occurrences "socket" (some 4) words) (named : o.entry.name = owner.row.name) :
    ∃ m before after again n, unpack 4 result.view.record = .ok m ∧
      result.view.saved = render (before ++
        ["--" ++ owner.row.name, owner.text host.accounts m] ++ after) ∧
      Rule.parse "socket" (some 4) ["--" ++ owner.row.name, owner.text host.accounts m] numeric
        host = .ok again ∧
      unpack 4 again.view.record = .ok n ∧
      (owner.range n = owner.range m ↔
        ∀ id, (owner.table host.accounts).idOf? (owner.text host.accounts m) = some id →
          owner.range m = ⟨id, id⟩) := by
  obtain ⟨m, late, read, saved, stated⟩ := owners_of_parsed parsed
  obtain ⟨flagged, made⟩ := stated o given owner named
  obtain ⟨range, remade, same⟩ := CredentialRange.display_again made
  obtain ⟨again, n, parsed_again, read_again, rfl⟩ := parse_owner numeric remade
  obtain ⟨before, after, words⟩ := owner_savedWords host.accounts late flagged
  refine ⟨m, before, after, again, n, read, ?_, parsed_again, read_again, same⟩
  rw [saved, words]
  rfl

theorem owners_reread_wheel : ∃ result, Rule.parse "socket" (some 4)
      ["--user", "1-3", "!", "--group=0xa"] false (hostOf "" "wheel:x:10:\n") = .ok result ∧
    ∃ o ∈ Rule.occurrences "socket" (some 4) ["--user", "1-3", "!", "--group=0xa"],
      o.entry.name = Owner.group.row.name ∧
      ∃ m again n, unpack 4 result.view.record = .ok m ∧
        result.view.saved = " --user 1-3 ! --group wheel" ∧
        Rule.parse "socket" (some 4) ["--group", "wheel"] false (hostOf "" "wheel:x:10:\n") =
          .ok again ∧
        unpack 4 again.view.record = .ok n ∧ n.groups = m.groups := by
  obtain ⟨result, parsed, saved, stored⟩ : ∃ result, Rule.parse "socket" (some 4)
      ["--user", "1-3", "!", "--group=0xa"] false (hostOf "" "wheel:x:10:\n") = .ok result ∧
      result.view.saved = " --user 1-3 ! --group wheel" ∧
      (unpack 4 result.view.record).map (·.groups) = .ok ⟨10, 10⟩ :=
    ⟨_, by with_unfolding_all rfl, by decide, by with_unfolding_all rfl⟩
  have options : named ["--user", "1-3", "!", "--group=0xa"] =
      [("user", "1-3"), ("group", "0xa")] := by with_unfolding_all rfl
  have member : ("group", "0xa") ∈ named ["--user", "1-3", "!", "--group=0xa"] := by
    simp [options]
  obtain ⟨o, given, pair⟩ := List.mem_map.mp member
  have name : o.entry.name = "group" := (Prod.mk.inj pair).1
  obtain ⟨m, -, -, again, n, read, -, parsed_again, read_again, same⟩ :=
    owners_reread_iff .group parsed given name
  have groups : m.groups = ⟨10, 10⟩ := by
    rw [read] at stored
    exact Except.ok.inj stored
  have text : Owner.group.text (hostOf "" "wheel:x:10:\n").accounts m = "wheel" := by
    rw [Owner.text, Owner.range, groups]
    decide
  rw [text] at parsed_again same
  refine ⟨result, parsed, o, given, name, m, again, n, read, saved, parsed_again, read_again,
    same.mpr fun id found => ?_⟩
  have first : (Owner.group.table (hostOf "" "wheel:x:10:\n").accounts).idOf? "wheel" =
      some 10 := by
    decide
  cases first.symm.trans found
  exact groups

/-- A name that two accounts have stands for the first of them, but shows the other one too. -/
theorem owners_reread_first : ∃ result m again n,
    Rule.parse "socket" (some 4) ["--user", "1001"] false
        (hostOf "app:x:1000:1000::/srv/a:/bin/sh\napp:x:1001:1001::/srv/b:/bin/sh\n" "") =
      .ok result ∧
    unpack 4 result.view.record = .ok m ∧ m.users = ⟨1001, 1001⟩ ∧
    result.view.saved = " --user app" ∧
    Rule.parse "socket" (some 4) ["--user", "app"] false
        (hostOf "app:x:1000:1000::/srv/a:/bin/sh\napp:x:1001:1001::/srv/b:/bin/sh\n" "") =
      .ok again ∧
    unpack 4 again.view.record = .ok n ∧ n.users = ⟨1000, 1000⟩ :=
  ⟨_, _, _, _, by with_unfolding_all rfl, by with_unfolding_all rfl, rfl, by decide,
    by with_unfolding_all rfl, by with_unfolding_all rfl, rfl⟩

end FilterRecord.SocketMatch
