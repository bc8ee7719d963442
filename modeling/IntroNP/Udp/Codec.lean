import IntroNP.Udp.Datagram

/-!
# File transfer over UDP: which names come through

A datagram is read back as it was written exactly when the file name has no white space and no `>` (`codec_iff`),
whatever bytes the payload holds. A word that was read has no white space, and a `>` in the name is taken for the end of
the header, so that the payload comes back longer than it was (`afterAngle_name`).
-/

namespace IntroNP.Udp

variable {s n o : Nat} {name payload : Text}

/-- A `>` in the name is taken for the end of the header. -/
theorem afterAngle_name {u v : Text} (hu : '>' ∉ u) :
    afterAngle (u ++ '>' :: v ++ ' ' :: '>' :: payload) = v ++ ' ' :: '>' :: payload := by
  rw [List.append_assoc, List.cons_append]
  exact afterAngle_append _ fun c hc e => hu (e ▸ hc)

theorem not_mem_of_afterAngle (h : afterAngle (name ++ ' ' :: '>' :: payload) = payload) : '>' ∉ name := by
  intro hmem
  obtain ⟨u, v, rfl, hu⟩ := List.eq_append_cons_of_mem hmem
  rw [afterAngle_name hu] at h
  have hlen := congrArg List.length h
  simp only [List.length_append, List.length_cons] at hlen
  omega

/-- **What comes through**: the header and the payload are read back, whatever the payload is, exactly if the name is
one word without a `>`. -/
theorem codec_iff (hs : s < 2 ^ 31) (hn : n < 2 ^ 31) (ho : o < 2 ^ 31) (hsize : payload.length < 2 ^ 31)
    (hne : name ≠ []) :
    parse (message s n o name payload).tail = ⟨s, some n, some o, some payload.length, name, payload⟩ ↔
      (∀ c ∈ name, isspace c = false) ∧ ∀ c ∈ name, c ≠ '>' := by
  constructor
  · intro h
    rw [parse_tail hs hn ho hsize] at h
    have hname := congrArg Header.fileName h
    have hfcnt := congrArg Header.fcnt h
    dsimp only at hname hfcnt
    refine ⟨fun c hc => ?_, fun c hc e => not_mem_of_afterAngle hfcnt (e ▸ hc)⟩
    rw [← hname] at hc
    exact IStream.readWord_not_isspace hc
  · rintro ⟨hword, hangle⟩
    exact parse_message hs hn ho hsize hne hword hangle

/-- A payload that looks like a header. -/
theorem codec_iff_header : parse (message 3 2 1 "a.txt".toList "<0 1 0 5 x >y".toList).tail =
    ⟨3, some 2, some 1, some 13, "a.txt".toList, "<0 1 0 5 x >y".toList⟩ :=
  (codec_iff (by decide) (by decide) (by decide) (by decide) (by simp)).2 ⟨by simp [isspace], by simp⟩

end IntroNP.Udp
