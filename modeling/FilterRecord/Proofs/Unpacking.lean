/- Proofs/Unpacking
   digest: Which bytes are records of a layout, and what is read from them. -/

import FilterRecord.Proofs.Layout

set_option autoImplicit false
set_option relaxedAutoImplicit false

namespace FilterRecord

open Text FilterRecord.Field

theorem exists_bind {ε α β : Type} {x : Except ε α} {f : α → Except ε β}
    (first : ∃ a, x = .ok a) (later : ∀ a, ∃ b, f a = .ok b) : ∃ b, (x >>= f) = .ok b := by
  obtain ⟨a, ran⟩ := first
  obtain ⟨b, made⟩ := later a
  exact ⟨b, bind_eq_ok_iff.mpr ⟨a, ran, made⟩⟩

theorem bind_error {ε α β : Type} {x : Except ε α} {f : α → Except ε β} {e : ε}
    (refused : x = .error e) : (x >>= f) = .error e := by
  rw [refused]
  rfl

namespace Field

variable {extension : String} {revision : UInt8} {size userspaceSize : Nat} {record : Bytes}

theorem checkSize_of_userspace (short : record.length = userspaceSize) :
    checkSize extension revision size userspaceSize record = .ok () := by
  simp [checkSize, short]

theorem checkSize_error (full : record.length ≠ size) (short : record.length ≠ userspaceSize) :
    checkSize extension revision size userspaceSize record =
      .error (.recordSize extension revision size record.length) := by
  simp [checkSize, full, short]

end Field

namespace Extension

/-- What an extension that was read has of the bytes: all numbers and names of its layout, and
nothing that the layout has no room for. -/
structure Reads (record : Bytes) (ext : Extension) : Prop where
  numbers : ∀ w ∈ ext.numbers, Holds w.offset w.bytes record
  names : ∀ n ∈ ext.names, n.1.offset + n.1.width ≤ record.length ∧ n.2 = nameOf (n.1.of record)
  fits : (∀ n ∈ ext.names, ConnTrack.Named n.1.width n.2) → ext.Fits
  recorded : ext.recorded = ext

variable {revision : UInt8} {record : Bytes}

private theorem reads_mark {m : Mark} (ok : Mark.unpack revision record = .ok m) :
    (mark m).Reads record := by
  refine ⟨?_, fun _ member => (List.not_mem_nil member).elim, fun _ => trivial, rfl⟩
  obtain ⟨_, -, read⟩ := bind_eq_ok_iff.mp ok
  split at read
  · obtain ⟨value, first, made⟩ := bind_eq_ok_iff.mp read
    cases made
    simpa [numbers] using holds_of_get64 first
  · obtain ⟨value, first, read⟩ := bind_eq_ok_iff.mp read
    obtain ⟨mode, second, made⟩ := bind_eq_ok_iff.mp read
    cases made
    simpa [numbers] using ⟨holds_of_get64 first, holds_of_get8 second⟩
  · obtain ⟨value, first, read⟩ := bind_eq_ok_iff.mp read
    obtain ⟨mask, second, made⟩ := bind_eq_ok_iff.mp read
    cases made
    simpa [numbers] using ⟨holds_of_get32 first, holds_of_get32 second⟩

private theorem reads_classify {c : Classify} (ok : Classify.unpack revision record = .ok c) :
    (classify c).Reads record := by
  refine ⟨?_, fun _ member => (List.not_mem_nil member).elim, fun _ => trivial, rfl⟩
  obtain ⟨_, -, read⟩ := bind_eq_ok_iff.mp ok
  split at read
  · obtain ⟨priority, first, made⟩ := bind_eq_ok_iff.mp read
    cases made
    simpa [numbers] using holds_of_get32 first
  · obtain ⟨value, first, read⟩ := bind_eq_ok_iff.mp read
    obtain ⟨mask, second, made⟩ := bind_eq_ok_iff.mp read
    cases made
    simpa [numbers] using ⟨holds_of_get32 first, holds_of_get32 second⟩

private theorem reads_ipMark {m : IpMark} (ok : IpMark.unpack revision record = .ok m) :
    (ipMark m).Reads record := by
  refine ⟨?_, fun _ member => (List.not_mem_nil member).elim, fun _ => trivial, rfl⟩
  obtain ⟨_, -, read⟩ := bind_eq_ok_iff.mp ok
  obtain ⟨word, first, read⟩ := bind_eq_ok_iff.mp read
  obtain ⟨mask, second, read⟩ := bind_eq_ok_iff.mp read
  obtain ⟨byte, third, read⟩ := bind_eq_ok_iff.mp read
  obtain ⟨shift, fourth, read⟩ := bind_eq_ok_iff.mp read
  have held := And.intro (holds_of_get32 first) (And.intro (holds_of_get32 second)
    (And.intro (holds_of_get8 third) (holds_of_get8 fourth)))
  split at read
  · cases read
    simpa [numbers] using held
  · cases read
    simpa [numbers] using held

private theorem reads_connTrack {t : ConnTrack} (ok : ConnTrack.unpack revision record = .ok t) :
    (connTrack t).Reads record := by
  obtain ⟨_, -, read⟩ := bind_eq_ok_iff.mp ok
  obtain ⟨flags, first, read⟩ := bind_eq_ok_iff.mp read
  obtain ⟨zone, second, read⟩ := bind_eq_ok_iff.mp read
  obtain ⟨events, third, read⟩ := bind_eq_ok_iff.mp read
  obtain ⟨expectations, fourth, read⟩ := bind_eq_ok_iff.mp read
  obtain ⟨helper, fifth, read⟩ := bind_eq_ok_iff.mp read
  have held := And.intro (holds_of_get16 first) (And.intro (holds_of_get16 second)
    (And.intro (holds_of_get32 third) (holds_of_get32 fourth)))
  dsimp only at read
  split at read
  · rename_i later
    obtain ⟨timeout, sixth, made⟩ := bind_eq_ok_iff.mp read
    cases made
    have nonzero := ne_zero_of_one_le later
    refine ⟨by simpa [numbers] using held, ?_, ?_, rfl⟩
    · simpa [names, nonzero] using ⟨getName_ok_iff.mp fifth, getName_ok_iff.mp sixth⟩
    · intro named
      simp only [names, if_neg nonzero, List.forall_mem_cons] at named
      exact ⟨named.1, named.2.1, fun zero => absurd zero nonzero⟩
  · rename_i early
    obtain ⟨timeout, blank, made⟩ := bind_eq_ok_iff.mp read
    cases blank
    cases made
    have zero : revision = 0 := by
      by_contra nonzero
      exact early (one_le_of_ne_zero nonzero)
    refine ⟨by simpa [numbers] using held, ?_, ?_, rfl⟩
    · simpa [names, zero, ConnTrack.helperWidth] using getName_ok_iff.mp fifth
    · intro named
      simp only [names, if_pos zero, List.forall_mem_cons] at named
      exact ⟨named.1, by simp [ConnTrack.Named, Utf8.encode, ConnTrack.timeoutWidth], fun _ => rfl⟩

private theorem reads_socket {m : SocketMatch} (ok : SocketMatch.unpack revision record = .ok m) :
    (socket m).Reads record := by
  obtain ⟨_, -, read⟩ := bind_eq_ok_iff.mp ok
  split at read
  · rename_i zero
    cases read
    refine ⟨by simp [numbers, SocketMatch.create, zero],
      fun _ member => (List.not_mem_nil member).elim,
      fun _ => SocketMatch.fits_create revision, rfl⟩
  · rename_i later
    obtain ⟨flags, first, read⟩ := bind_eq_ok_iff.mp read
    obtain ⟨inverted, second, read⟩ := bind_eq_ok_iff.mp read
    split at read
    · rename_i early
      cases read
      refine ⟨?_, fun _ member => (List.not_mem_nil member).elim, fun _ => ?_, rfl⟩
      · simpa [numbers, SocketMatch.create, later, early] using
          ⟨holds_of_get8 first, holds_of_get8 second⟩
      · exact ⟨fun zero => absurd zero later, fun _ => ⟨rfl, rfl, rfl⟩⟩
    · rename_i late
      obtain ⟨states, third, read⟩ := bind_eq_ok_iff.mp read
      obtain ⟨firstUser, fourth, read⟩ := bind_eq_ok_iff.mp read
      obtain ⟨lastUser, fifth, read⟩ := bind_eq_ok_iff.mp read
      obtain ⟨firstGroup, sixth, read⟩ := bind_eq_ok_iff.mp read
      obtain ⟨lastGroup, seventh, read⟩ := bind_eq_ok_iff.mp read
      cases read
      refine ⟨?_, fun _ member => (List.not_mem_nil member).elim, fun _ => ?_, rfl⟩
      · simpa [numbers, later, late] using
          ⟨holds_of_get8 first, holds_of_get8 second, holds_of_get32 third, holds_of_get32 fourth,
            holds_of_get32 fifth, holds_of_get32 sixth, holds_of_get32 seventh⟩
      · exact ⟨fun zero => absurd zero later, fun early => absurd early late⟩

private theorem reads_reversePath {m : ReversePath}
    (ok : ReversePath.unpack revision record = .ok m) : (reversePath m).Reads record := by
  obtain ⟨_, -, read⟩ := bind_eq_ok_iff.mp ok
  obtain ⟨flags, first, read⟩ := bind_eq_ok_iff.mp read
  split at read
  · rename_i zero
    cases read
    refine ⟨?_, fun _ member => (List.not_mem_nil member).elim,
      fun _ => ⟨fun _ => ⟨rfl, rfl⟩⟩, rfl⟩
    simpa [numbers, ReversePath.create, zero] using holds_of_get8 first
  · rename_i later
    obtain ⟨length, second, read⟩ := bind_eq_ok_iff.mp read
    obtain ⟨value, third, read⟩ := bind_eq_ok_iff.mp read
    obtain ⟨mask, fourth, read⟩ := bind_eq_ok_iff.mp read
    cases read
    refine ⟨?_, fun _ member => (List.not_mem_nil member).elim,
      fun _ => ⟨fun zero => absurd zero later⟩, rfl⟩
    simpa [numbers, later] using ⟨holds_of_get8 first, holds_of_get8 second,
      holds_of_get32 third, holds_of_get32 fourth⟩

private theorem exists_mark (full : record.length = (Mark.create revision).size) :
    ∃ m, Mark.unpack revision record = .ok m := by
  refine exists_bind ⟨(), checkSize_of_length full⟩ fun _ => ?_
  split <;> rename_i blank <;> simp only [blank, Mark.size, align] at full
  · exact exists_bind (exists_get64 (by omega)) fun _ => ⟨_, rfl⟩
  · exact exists_bind (exists_get64 (by omega)) fun _ =>
      exists_bind (exists_get8 (by omega)) fun _ => ⟨_, rfl⟩
  · exact exists_bind (exists_get32 (by omega)) fun _ =>
      exists_bind (exists_get32 (by omega)) fun _ => ⟨_, rfl⟩

private theorem exists_classify (full : record.length = (Classify.create revision).size) :
    ∃ c, Classify.unpack revision record = .ok c := by
  refine exists_bind ⟨(), checkSize_of_length full⟩ fun _ => ?_
  split <;> rename_i blank <;> simp only [blank, Classify.size, align] at full
  · exact exists_bind (exists_get32 (by omega)) fun _ => ⟨_, rfl⟩
  · exact exists_bind (exists_get32 (by omega)) fun _ =>
      exists_bind (exists_get32 (by omega)) fun _ => ⟨_, rfl⟩

private theorem exists_ipMark (full : record.length = IpMark.size) :
    ∃ m, IpMark.unpack revision record = .ok m := by
  refine exists_bind ⟨(), checkSize_of_length full⟩ fun _ => ?_
  refine exists_bind (exists_get32 (by rw [full]; decide)) fun _ => ?_
  refine exists_bind (exists_get32 (by rw [full]; decide)) fun _ => ?_
  refine exists_bind (exists_get8 (by rw [full]; decide)) fun _ => ?_
  refine exists_bind (exists_get8 (by rw [full]; decide)) fun _ => ?_
  split <;> exact ⟨_, rfl⟩

private theorem exists_connTrack (either : record.length = ConnTrack.size revision ∨
    record.length = ConnTrack.userspaceSize revision) :
    ∃ t, ConnTrack.unpack revision record = .ok t := by
  have checked : checkSize ConnTrack.name revision (ConnTrack.size revision)
      (ConnTrack.userspaceSize revision) record = .ok () :=
    either.elim checkSize_of_length checkSize_of_userspace
  have long : 32 ≤ record.length := by
    simp only [ConnTrack.size, ConnTrack.userspaceSize, ConnTrack.helperWidth,
      ConnTrack.timeoutWidth, align] at either
    split_ifs at either <;> omega
  refine exists_bind ⟨(), checked⟩ fun _ => ?_
  refine exists_bind (exists_get16 (by omega)) fun _ => ?_
  refine exists_bind (exists_get16 (by omega)) fun _ => ?_
  refine exists_bind (exists_get32 (by omega)) fun _ => ?_
  refine exists_bind (exists_get32 (by omega)) fun _ => ?_
  have helper : 12 + ConnTrack.helperWidth ≤ record.length := by
    rw [ConnTrack.helperWidth]
    omega
  refine exists_bind ⟨_, getName_ok_iff.mpr ⟨helper, rfl⟩⟩ fun _ => ?_
  dsimp only
  split
  · rename_i later
    have nonzero := ne_zero_of_one_le later
    have timeout : 12 + ConnTrack.helperWidth + ConnTrack.timeoutWidth ≤ record.length := by
      simp only [ConnTrack.size, ConnTrack.userspaceSize, ConnTrack.helperWidth,
        ConnTrack.timeoutWidth, align, if_neg nonzero] at either ⊢
      omega
    exact exists_bind ⟨_, getName_ok_iff.mpr ⟨timeout, rfl⟩⟩ fun _ => ⟨_, rfl⟩
  · exact exists_bind ⟨_, rfl⟩ fun _ => ⟨_, rfl⟩

private theorem exists_socket (full : record.length = SocketMatch.size revision) :
    ∃ m, SocketMatch.unpack revision record = .ok m := by
  refine exists_bind ⟨(), checkSize_of_length full⟩ fun _ => ?_
  split
  · exact ⟨_, rfl⟩
  · rename_i later
    simp only [SocketMatch.size, if_neg later, align] at full
    have long : 8 ≤ record.length := by
      split_ifs at full <;> omega
    refine exists_bind (exists_get8 (by omega)) fun _ => ?_
    refine exists_bind (exists_get8 (by omega)) fun _ => ?_
    split
    · exact ⟨_, rfl⟩
    · rename_i late
      rw [if_neg late] at full
      refine exists_bind (exists_get32 (by omega)) fun _ => ?_
      refine exists_bind (exists_get32 (by omega)) fun _ => ?_
      refine exists_bind (exists_get32 (by omega)) fun _ => ?_
      refine exists_bind (exists_get32 (by omega)) fun _ => ?_
      exact exists_bind (exists_get32 (by omega)) fun _ => ⟨_, rfl⟩

private theorem exists_reversePath (full : record.length = ReversePath.size revision) :
    ∃ m, ReversePath.unpack revision record = .ok m := by
  have long : 8 ≤ record.length := by
    simp only [ReversePath.size, align] at full
    split_ifs at full <;> omega
  refine exists_bind ⟨(), checkSize_of_length full⟩ fun _ => ?_
  refine exists_bind (exists_get8 (by omega)) fun _ => ?_
  split
  · exact ⟨_, rfl⟩
  · rename_i later
    simp only [ReversePath.size, if_neg later, align] at full
    refine exists_bind (exists_get8 (by omega)) fun _ => ?_
    refine exists_bind (exists_get32 (by omega)) fun _ => ?_
    exact exists_bind (exists_get32 (by omega)) fun _ => ⟨_, rfl⟩

namespace Family

variable {family : Family} {ext : Extension}

theorem reads_of_unpack (ok : family.unpack revision record = .ok ext) : ext.Reads record := by
  cases family with
  | mark =>
    obtain ⟨m, read, rfl⟩ := map_eq_ok_iff.mp ok
    exact reads_mark read
  | classify =>
    obtain ⟨c, read, rfl⟩ := map_eq_ok_iff.mp ok
    exact reads_classify read
  | ipMark =>
    obtain ⟨m, read, rfl⟩ := map_eq_ok_iff.mp ok
    exact reads_ipMark read
  | connTrack | noTrack =>
    obtain ⟨t, read, rfl⟩ := map_eq_ok_iff.mp ok
    exact reads_connTrack read
  | socket =>
    obtain ⟨m, read, rfl⟩ := map_eq_ok_iff.mp ok
    exact reads_socket read
  | reversePath =>
    obtain ⟨m, read, rfl⟩ := map_eq_ok_iff.mp ok
    exact reads_reversePath read

theorem owns_of_unpack (ok : family.unpack revision record = .ok ext) : family.Owns ext := by
  cases family with
  | mark | classify | ipMark | connTrack | noTrack | socket | reversePath =>
    obtain ⟨made, -, rfl⟩ := map_eq_ok_iff.mp ok
    constructor

theorem revision_of_unpack (ok : family.unpack revision record = .ok ext) :
    ext.revision = (family.create revision).revision := by
  cases family with
  | mark =>
    obtain ⟨m, read, rfl⟩ := map_eq_ok_iff.mp ok
    have own : (Mark.create m.revision).revision = m.revision := by cases m <;> rfl
    exact own.symm.trans (congrArg Mark.revision (Mark.create_of_unpack read))
  | classify =>
    obtain ⟨c, read, rfl⟩ := map_eq_ok_iff.mp ok
    have own : (Classify.create c.revision).revision = c.revision := by cases c <;> rfl
    exact own.symm.trans (congrArg Classify.revision (Classify.create_of_unpack read))
  | ipMark =>
    obtain ⟨m, read, rfl⟩ := map_eq_ok_iff.mp ok
    have own : (IpMark.create m.revision).revision = m.revision := by cases m <;> rfl
    exact own.symm.trans (congrArg IpMark.revision (IpMark.create_of_unpack read))
  | connTrack | noTrack =>
    obtain ⟨t, read, rfl⟩ := map_eq_ok_iff.mp ok
    exact (ConnTrack.unpack_ok read).1
  | socket =>
    obtain ⟨m, read, rfl⟩ := map_eq_ok_iff.mp ok
    exact (SocketMatch.unpack_ok read).1
  | reversePath =>
    obtain ⟨m, read, rfl⟩ := map_eq_ok_iff.mp ok
    exact ReversePath.revision_of_unpack read

theorem unpack_error (full : record.length ≠ (family.create revision).size)
    (short : record.length ≠ (family.create revision).userspaceSize) :
    family.unpack revision record =
      .error (.recordSize (family.create revision).name revision (family.create revision).size
        record.length) := by
  cases family with
  | mark | classify | ipMark | connTrack | noTrack | socket | reversePath =>
    exact map_eq_error_iff.mpr (bind_error (checkSize_error full short))

/-- Bytes of one of a layout's two sizes are a record of it. -/
theorem exists_unpack (either : record.length = (family.create revision).size ∨
    record.length = (family.create revision).userspaceSize) :
    ∃ ext, family.unpack revision record = .ok ext := by
  have mapped {α : Type} {x : Except RuleError α} (f : α → Extension) (ran : ∃ a, x = .ok a) :
      ∃ ext, x.map f = .ok ext :=
    ran.elim fun a made => ⟨f a, map_eq_ok_iff.mpr ⟨a, made, rfl⟩⟩
  cases family with
  | mark => exact mapped _ (exists_mark (or_self_iff.mp either))
  | classify => exact mapped _ (exists_classify (or_self_iff.mp either))
  | ipMark => exact mapped _ (exists_ipMark (or_self_iff.mp either))
  | connTrack | noTrack => exact mapped _ (exists_connTrack either)
  | socket => exact mapped _ (exists_socket (or_self_iff.mp either))
  | reversePath => exact mapped _ (exists_reversePath (or_self_iff.mp either))

end Family

end Extension

end FilterRecord
