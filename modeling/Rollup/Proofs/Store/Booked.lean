import Rollup.Proofs.Store.Reset

/-!
This module contains stores in which nothing fails and requests are answered one after the other:
every bucket is recorded, and a reset is complete.
-/

namespace Rollup.Store

/--
Every bucket is in the bookkeeping set of its counter, and nothing else is.
-/
structure Data.Booked (keys : KeySpace) (d : Data) : Prop where
  tidy : d.Tidy keys
  recorded : ∀ n key, keys.IsBucketOf n key → key ∈ d.hashes → key ∈ d.members (keys.bookkeeping n)

namespace Data

theorem not_failsToRecord_send (c : Command) (d : Data) (k m : String) :
    ¬Sent.FailsToRecord k m ⟨c, (send c d).1⟩ := by
  cases c <;> simp [Sent.FailsToRecord, send]

def after (keys : KeySpace) (d : Data) (requests : List Request) : Data :=
  requests.foldl (fun d r => ((Counters.answer keys r).run send.bare d).2) d

theorem booked_empty (keys : KeySpace) : Booked keys .empty where
  tidy := tidy_empty keys
  recorded := by simp [empty]

namespace Booked

variable {keys : KeySpace} {name key : String} {d : Data}

theorem kept (h : d.Booked keys) (hkey : keys.IsBucketOf name key) :
    ∃ trace, Kept keys name key .idle d trace
      ∧ ∀ x ∈ trace, ¬x.FailsToRecord (keys.bookkeeping name) key := by
  -- a trace that leads here: the bucket has just been recorded, or nothing has happened to it yet
  by_cases hmember : key ∈ d.members (keys.bookkeeping name)
  · refine ⟨[⟨.sadd (keys.bookkeeping name) key, .ok ()⟩], ?_, ?_⟩
    · constructor
      · exact h.tidy
      · exact iff_of_true hmember (since_singleton.2 ⟨rfl, rfl⟩)
      · intro hleft
        cases (since_singleton.1 hleft).1
      · exact fun _ _ hnot => absurd hmember hnot
      · simp
      · simp
    · simp [Sent.FailsToRecord]
  · refine ⟨[], ?_, by simp⟩
    constructor
    · exact h.tidy
    · exact iff_of_false hmember not_since_nil
    · exact fun hleft => absurd hleft not_since_nil
    · exact fun _ hhash hnot => absurd (h.recorded name key hkey hhash) hnot
    · simp
    · simp

/--
Where nothing fails, a request that is answered alone leaves every bucket recorded.
-/
theorem answer (h : d.Booked keys) (r : Request) :
    ((Counters.answer keys r).run send.bare d).2.Booked keys := by
  have hkept : ∀ n key, keys.IsBucketOf n key → ∃ trace,
      Kept keys n key .idle ((Counters.answer keys r).run send.bare d).2 trace
        ∧ ∀ x ∈ trace, ¬x.FailsToRecord (keys.bookkeeping n) key := by
    intro n key hkey
    obtain ⟨trace, hkept, hnone⟩ := h.kept hkey
    have hafter := Kept.run (s := (d, trace)) hkey worksOn_send (Counters.orderly_answer hkey r)
      hkept
    -- taking down the trace does not change the run, and no recording ever fails in it
    obtain ⟨-, hdata, hnone'⟩ := Program.run_related send.traced send
      (R := fun s d => s.1 = d ∧ ∀ x ∈ s.2, ¬x.FailsToRecord (keys.bookkeeping n) key)
      (by
        rintro c s _ ⟨rfl, hs⟩
        refine ⟨rfl, rfl, ?_⟩
        intro x hx
        rcases List.mem_append.1 hx with hx | hx
        · exact hs x hx
        · rw [List.mem_singleton.1 hx]
          apply not_failsToRecord_send)
      (Counters.answer keys r) (s := (d, trace)) (t := d) ⟨rfl, hnone⟩
    exact ⟨_, hdata ▸ hafter, hnone'⟩
  constructor
  · obtain ⟨_, hkept, -⟩ := hkept "" _ (KeySpace.isBucketOf_years keys "")
    exact hkept.tidy
  · intro n key hkey hhash
    obtain ⟨trace, hkept, hnone⟩ := hkept n key hkey
    apply Classical.byContradiction
    intro hmember
    obtain ⟨earlier, x, later, rfl, ⟨hfails, -⟩, -⟩ := hkept.unrecorded (by simp) hhash hmember
    exact hnone x (by simp) hfails

theorem hash_reset (h : d.Booked keys) (n : String) (level : Level) (a : Time.Instant) :
    (d.reset keys name).hash (keys.bucket n level a)
      = if n = name then ∅ else d.hash (keys.bucket n level a) := by
  split
  · next hn =>
    subst hn
    apply Std.ExtTreeMap.getD_eq_fallback
    rw [mem_hashes_reset (KeySpace.isBucketOf_bucket keys n level a)]
    rintro ⟨hhash, hmember⟩
    exact hmember (h.recorded n _ (KeySpace.isBucketOf_bucket keys n level a) hhash)
  · next hn =>
    have hother : keys.bucket n level a ∉ d.members (keys.bookkeeping name) := by
      intro hmember
      exact hn ((KeySpace.isBucketOf_bucket keys n level a).eq (h.tidy name _ hmember))
    unfold hash
    rw [Std.ExtTreeMap.getD_eq_getD_getElem?, Std.ExtTreeMap.getD_eq_getD_getElem?,
      getElem?_hashes_reset, if_neg]
    rintro (hmember | htotal)
    · exact hother hmember
    · exact KeySpace.total_ne_bucket htotal.symm

theorem total_reset (h : d.Booked keys) (n : String) :
    (d.reset keys name).strings.getD (keys.total n) 0
      = if n = name then 0 else d.strings.getD (keys.total n) 0 := by
  split
  · next hn =>
    subst hn
    exact Std.ExtTreeMap.getD_eq_fallback total_not_mem_reset
  · next hn =>
    rw [Std.ExtTreeMap.getD_eq_getD_getElem?, Std.ExtTreeMap.getD_eq_getD_getElem?,
      getElem?_strings_reset, if_neg]
    rintro (hmember | htotal)
    · obtain ⟨level, a, hkey⟩ := h.tidy name _ hmember
      exact KeySpace.total_ne_bucket hkey
    · exact hn (KeySpace.total_inj.1 htotal)

theorem mem_names_reset (h : d.Booked keys) (n : String) :
    n ∈ (d.reset keys name).members keys.names ↔ n ≠ name ∧ n ∈ d.members keys.names := by
  have hother : keys.names ∉ d.members (keys.bookkeeping name) := by
    intro hmember
    obtain ⟨level, a, hkey⟩ := h.tidy name _ hmember
    exact KeySpace.names_ne_bucket hkey
  unfold reset
  simp only [mem_members_srem, members_foldl_del, Std.ExtTreeSet.mem_toList, del_eq_foldl]
  simp [hother, and_comm]

theorem after (h : d.Booked keys) (requests : List Request) :
    (d.after keys requests).Booked keys := by
  induction requests generalizing d with
  | nil => exact h
  | cons r requests ih => exact ih (h.answer r)

end Booked

end Data

theorem Counters.run_reset_send {name : String} (hname : name ≠ "") (keys : KeySpace) (d : Data) :
    (reset keys name).run Data.send.bare d = (.ok (), d.reset keys name) := by
  unfold reset checkName
  rw [if_neg hname]
  rfl

end Rollup.Store
