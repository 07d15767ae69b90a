import Rollup.Proofs.Store.Cleared
import Rollup.Proofs.Store.Leftover

/-!
This module contains resets of counters in a store whose commands may fail. The main statement is
`reset_leaves_unrecorded`: a reset that succeeds leaves exactly the buckets that were left
unrecorded.
-/

namespace Rollup.Store

def Data.reset (keys : KeySpace) (name : String) (d : Data) : Data :=
  let d := d.del (keys.total name)
  let buckets := (d.members (keys.bookkeeping name)).toList
  ((buckets.foldl del d).srem (keys.bookkeeping name) buckets).srem keys.names [name]

namespace Data

variable {keys : KeySpace} {name key : String} {d : Data}

theorem total_not_mem_reset : keys.total name ∉ (d.reset keys name).strings := by
  unfold reset
  simp only [strings_srem, mem_strings_foldl_del, del_eq_foldl]
  simp

theorem name_not_mem_reset : name ∉ (d.reset keys name).members keys.names := by
  unfold reset
  simp only [mem_members_srem]
  simp

theorem members_del_total :
    (d.del (keys.total name)).members (keys.bookkeeping name)
      = d.members (keys.bookkeeping name) := by
  rw [del_eq_foldl, members_foldl_del, if_neg]
  simp

theorem getElem?_hashes_reset (k : String) : (d.reset keys name).hashes[k]?
    = if k ∈ d.members (keys.bookkeeping name) ∨ k = keys.total name then none
      else d.hashes[k]? := by
  unfold reset
  simp only [hashes_srem, getElem?_hashes_foldl_del, Std.ExtTreeSet.mem_toList, members_del_total]
  by_cases hmember : k ∈ d.members (keys.bookkeeping name)
  · simp [hmember]
  · simp [hmember, del]

theorem getElem?_strings_reset (k : String) : (d.reset keys name).strings[k]?
    = if k ∈ d.members (keys.bookkeeping name) ∨ k = keys.total name then none
      else d.strings[k]? := by
  unfold reset
  simp only [strings_srem, getElem?_strings_foldl_del, Std.ExtTreeSet.mem_toList, members_del_total]
  by_cases hmember : k ∈ d.members (keys.bookkeeping name)
  · simp [hmember]
  · simp [hmember, del]

theorem bookkeeping_not_mem_reset : keys.bookkeeping name ∉ (d.reset keys name).sets := by
  intro h
  unfold reset at h
  obtain ⟨m, hm, hlisted⟩ := mem_sets_srem (mem_sets_of_mem_srem h)
  rw [members_foldl_del] at hm
  split at hm
  · exact Std.ExtTreeSet.not_mem_empty hm
  · exact hlisted (Std.ExtTreeSet.mem_toList.2 hm)

theorem mem_sets_of_mem_reset {k : String} (h : k ∈ (d.reset keys name).sets) : k ∈ d.sets := by
  unfold reset at h
  have hdel := mem_sets_of_mem_srem (mem_sets_of_mem_srem h)
  rw [mem_sets_foldl_del, del_eq_foldl, mem_sets_foldl_del] at hdel
  exact hdel.1.1

theorem mem_strings_reset_iff (k : String) : k ∈ (d.reset keys name).strings
    ↔ k ∈ d.strings ∧ k ∉ d.members (keys.bookkeeping name) ∧ k ≠ keys.total name := by
  rw [mem_iff_of_getElem?_eq_ite (getElem?_strings_reset k), not_or]

theorem mem_hashes_reset_iff (k : String) : k ∈ (d.reset keys name).hashes
    ↔ k ∈ d.hashes ∧ k ∉ d.members (keys.bookkeeping name) ∧ k ≠ keys.total name := by
  rw [mem_iff_of_getElem?_eq_ite (getElem?_hashes_reset k), not_or]

theorem mem_hashes_reset {n : String} (hkey : keys.IsBucketOf n key) :
    key ∈ (d.reset keys name).hashes ↔ key ∈ d.hashes ∧ key ∉ d.members (keys.bookkeeping name) := by
  obtain ⟨level, a, rfl⟩ := hkey
  rw [mem_hashes_reset_iff]
  simp

end Data

section

variable {σ α : Type} {rt : Runtime σ} {client : Client σ} {data : σ → Data} {s : σ}

/--
An answer of success to a command tells that it was done to some data.
-/
def Runtime.Does (rt : Runtime σ) (data : σ → Data) (c : Command) : Prop :=
  ∀ s reply, (rt.send c s).1 = .ok reply →
    (Data.send c (data s)).1 = .ok reply ∧ data (rt.send c s).2 = (Data.send c (data s)).2

theorem Client.WorksOn.does (hclient : client.WorksOn data) (c : Command) :
    client.bare.Does data c :=
  fun s _ hok => (hclient c s).eq_of_ok hok

theorem Runtime.Does.run_send_bind_eq_ok {c : Command} (hc : rt.Does data c)
    {next : c.Reply → Program α} {a : α}
    (h : (((Program.send c).bind next).run rt s).1 = .ok a) :
    ∃ reply s', (Data.send c (data s)).1 = .ok reply ∧ data s' = (Data.send c (data s)).2
      ∧ ((Program.send c).bind next).run rt s = (next reply).run rt s' := by
  obtain ⟨reply, hreply, hrun⟩ := Program.run_send_bind_eq_ok h
  obtain ⟨hsend, hafter⟩ := hc s reply hreply
  exact ⟨reply, _, hsend, hafter, hrun⟩

theorem Counters.data_run_reset {keys : KeySpace} {name : String}
    (hrt : ∀ c, MaySend keys (.reset name) c → rt.Does data c)
    (hreport : ∀ event s, data (rt.report event s) = data s)
    (h : ((reset keys name).run rt s).1 = .ok ()) :
    name ≠ "" ∧ data ((reset keys name).run rt s).2 = (data s).reset keys name := by
  unfold reset checkName at h ⊢
  by_cases hname : name = ""
  · rw [if_pos hname] at h
    cases h
  · refine ⟨hname, ?_⟩
    rw [if_neg hname] at h ⊢
    -- the run has ended well, so each of its five commands has
    obtain ⟨_, s₁, -, hdel, hrun₁⟩ := (hrt _ (Or.inl rfl)).run_send_bind_eq_ok h
    have h₁ := (congrArg Prod.fst hrun₁).symm.trans h
    obtain ⟨buckets, s₂, hlist, hsame, hrun₂⟩ :=
      (hrt _ (Or.inr (Or.inl rfl))).run_send_bind_eq_ok h₁
    have h₂ := (congrArg Prod.fst hrun₂).symm.trans h₁
    obtain ⟨_, s₃, -, hremove, hrun₃⟩ :=
      (hrt _ (Or.inr (Or.inr (Or.inl ⟨buckets, Or.inl rfl⟩)))).run_send_bind_eq_ok h₂
    have h₃ := (congrArg Prod.fst hrun₃).symm.trans h₂
    obtain ⟨_, s₄, -, hunrecord, hrun₄⟩ :=
      (hrt _ (Or.inr (Or.inr (Or.inl ⟨buckets, Or.inr rfl⟩)))).run_send_bind_eq_ok h₃
    have h₄ := (congrArg Prod.fst hrun₄).symm.trans h₃
    obtain ⟨_, s₅, -, htake, hrun₅⟩ :=
      (hrt _ (Or.inr (Or.inr (Or.inr rfl)))).run_send_bind_eq_ok h₄
    have hafter := hrun₁.trans (hrun₂.trans (hrun₃.trans (hrun₄.trans hrun₅)))
    refine (congrArg (fun out => data out.2) hafter).trans ((hreport .wasReset s₅).trans ?_)
    cases hlist
    rw [htake, hunrecord, hremove, hsame, hdel]
    rfl

end

open Rollup.Time

namespace Bench

/--
What happens to a store of counters: a request is answered, or failures are queued for commands to
come.
-/
inductive Deed where
  | request (r : Request)
  | failNext (verb : Verb) (failure : Failure) (times : Nat)

def act (keys : KeySpace) (bench : Bench) : Deed → Bench
  | .request r => (bench.answer keys r).2
  | .failNext verb failure times => bench.failNext verb failure times

def after (keys : KeySpace) (bench : Bench) (deeds : List Deed) : Bench :=
  deeds.foldl (act keys) bench

def actTraced (keys : KeySpace) (s : Bench × List Sent) : Deed → Bench × List Sent
  | .request r => ((Counters.answer keys r).run send.traced.bare s).2
  | .failNext verb failure times => (s.1.failNext verb failure times, s.2)

/--
The commands that some deeds on an empty store sent, with what came of them.
-/
def trace (keys : KeySpace) (deeds : List Deed) : List Sent :=
  (deeds.foldl (actTraced keys) (empty, [])).2

variable {keys : KeySpace} {name key : String}

theorem fst_foldl_actTraced (deeds : List Deed) (s : Bench × List Sent) :
    (deeds.foldl (actTraced keys) s).1 = s.1.after keys deeds := by
  induction deeds generalizing s with
  | nil => rfl
  | cons deed deeds ih =>
    rw [List.foldl_cons, ih]
    unfold after
    rw [List.foldl_cons]
    congr 1
    cases deed with
    | request r =>
      simp only [act, actTraced, answer_eq]
      exact (Program.run_related send.traced send
        (R := fun (s : Bench × List Sent) (b : Bench) => s.1 = b)
        (by rintro c s _ rfl; exact ⟨rfl, rfl⟩) _ rfl).2
    | failNext verb failure times => rfl

theorem kept_foldl_actTraced (hkey : keys.IsBucketOf name key) (deeds : List Deed)
    {s : Bench × List Sent} (h : Kept keys name key .idle s.1.data s.2) :
    Kept keys name key .idle (deeds.foldl (actTraced keys) s).1.data
      (deeds.foldl (actTraced keys) s).2 := by
  induction deeds generalizing s with
  | nil => exact h
  | cons deed deeds ih =>
    apply ih
    cases deed with
    | request r => exact h.run hkey worksOn_send (Counters.orderly_answer hkey r)
    | failNext verb failure times => exact h

/--
Whatever failed, a bucket is unrecorded exactly if the trace tells that it was left so.
-/
theorem kept_after (hkey : keys.IsBucketOf name key) (deeds : List Deed) :
    Kept keys name key .idle (empty.after keys deeds).data (trace keys deeds) := by
  have h := kept_foldl_actTraced hkey deeds (s := (empty, [])) (Kept.empty keys name key)
  rwa [fst_foldl_actTraced] at h

theorem cleared_after {bench : Bench} (h : bench.data.Cleared keys name) {deeds : List Deed}
    (hdeeds : ∀ amount instant, .request (.increment name amount instant) ∉ deeds) :
    (bench.after keys deeds).data.Cleared keys name := by
  induction deeds generalizing bench with
  | nil => exact h
  | cons deed deeds ih =>
    apply ih
    · cases deed with
      | request r =>
        simp only [act, answer_eq]
        apply h.run_answer worksOn_send
        rintro amount instant rfl
        exact hdeeds amount instant List.mem_cons_self
      | failNext verb failure times => exact h
    · intro amount instant hmem
      exact hdeeds amount instant (List.mem_cons_of_mem _ hmem)

theorem data_answer_reset {bench : Bench} {answer : Answer}
    (h : (bench.answer keys (.reset name)).1 = .ok answer) :
    name ≠ "" ∧ (bench.answer keys (.reset name)).2.data = bench.data.reset keys name := by
  rw [answer_eq] at h ⊢
  unfold Counters.answer at h ⊢
  rw [Program.run_map] at h ⊢
  cases hrun : ((Counters.reset keys name).run send.bare bench).1 with
  | error e =>
    rw [hrun] at h
    cases h
  | ok _ => exact Counters.data_run_reset (fun c _ => worksOn_send.does c) (fun _ _ => rfl) hrun

/--
Whatever failed before, a reset that succeeds removes the total, the bookkeeping set and the name of
the counter, and it leaves exactly those buckets that were left unrecorded. Where there are none, no
query shows anything of the counter until it is incremented again.
-/
theorem reset_leaves_unrecorded (keys : KeySpace) (deeds : List Deed) {name : String}
    {answer : Answer} (h : ((empty.after keys deeds).answer keys (.reset name)).1 = .ok answer) :
    let bench := ((empty.after keys deeds).answer keys (.reset name)).2
    let trace := trace keys deeds
    (keys.total name ∉ bench.data.strings ∧ keys.bookkeeping name ∉ bench.data.sets
        ∧ name ∉ bench.data.members keys.names)
      ∧ (∀ key, keys.IsBucketOf name key →
        (key ∈ bench.data.hashes ↔ LeftUnrecorded (keys.bookkeeping name) key trace))
      ∧ ((∀ key, keys.IsBucketOf name key → ¬LeftUnrecorded (keys.bookkeeping name) key trace) →
        ∀ later : List Deed, (∀ amount instant, .request (.increment name amount instant) ∉ later) →
          ∀ r, ShowsNothing name r ((bench.after keys later).answer keys r).1
            ∧ ((bench.after keys later).failures = [] →
              Answers name r ((bench.after keys later).answer keys r).1)) := by
  intro bench trace
  obtain ⟨hname, hdata⟩ := data_answer_reset h
  have hdata : bench.data = (empty.after keys deeds).data.reset keys name := hdata
  have hbuckets : ∀ key, keys.IsBucketOf name key →
      (key ∈ bench.data.hashes ↔ LeftUnrecorded (keys.bookkeeping name) key trace) := by
    intro key hkey
    have hkept := kept_after hkey deeds
    rw [hdata, Data.mem_hashes_reset hkey]
    constructor
    · intro hleft
      exact hkept.unrecorded (by simp) hleft.1 hleft.2
    · exact hkept.left
  have htotal : keys.total name ∉ bench.data.strings := hdata ▸ Data.total_not_mem_reset
  have hset : keys.bookkeeping name ∉ bench.data.sets := hdata ▸ Data.bookkeeping_not_mem_reset
  have hlist : name ∉ bench.data.members keys.names := hdata ▸ Data.name_not_mem_reset
  refine ⟨⟨htotal, hset, hlist⟩, hbuckets, ?_⟩
  intro hnone later hlater r
  have hcleared : bench.data.Cleared keys name :=
    ⟨htotal, hset, hlist, fun key hkey => mt (hbuckets key hkey).1 (hnone key hkey)⟩
  have hcleared := cleared_after hcleared hlater
  rw [answer_eq]
  exact ⟨hcleared.showsNothing worksOn_send r, fun hfailures => hcleared.answers hname hfailures r⟩

/--
An increment whose first bucket could not be recorded.
-/
theorem leftUnrecorded_halfIncrement :
    let noon : Instant := ⟨⟨2024, 2, 29, by decide, by decide, by decide⟩, 43200, 0, by decide,
      by decide, by decide⟩
    let deeds : List Deed :=
      [.failNext .sadd .timeout 1, .request (.increment "a" ⟨1, by decide, by decide⟩ noon)]
    ((empty.after .standard deeds).answer .standard (.reset "a")).1 = .ok .done
      ∧ LeftUnrecorded (KeySpace.standard.bookkeeping "a") (KeySpace.standard.years "a")
        (trace .standard deeds) := by
  intro noon deeds
  have hok : ((empty.after .standard deeds).answer .standard (.reset "a")).1 = .ok .done := by
    decide +kernel
  obtain ⟨-, hbuckets, -⟩ := reset_leaves_unrecorded .standard deeds hok
  refine ⟨hok, (hbuckets _ (KeySpace.isBucketOf_years _ _)).1 ?_⟩
  decide +kernel

/--
A reset that succeeds does not always remove every bucket.
-/
theorem not_reset_complete : ¬∀ (keys : KeySpace) (deeds : List Deed) (name : String),
    ((empty.after keys deeds).answer keys (.reset name)).1 = .ok .done →
      ∀ key, keys.IsBucketOf name key →
        key ∉ ((empty.after keys deeds).answer keys (.reset name)).2.data.hashes := by
  intro h
  let noon : Instant := ⟨⟨2024, 2, 29, by decide, by decide, by decide⟩, 43200, 0, by decide,
    by decide, by decide⟩
  apply h .standard
    [.failNext .sadd .timeout 1, .request (.increment "a" ⟨1, by decide, by decide⟩ noon)] "a"
  · decide +kernel
  · exact KeySpace.isBucketOf_years _ _
  · decide +kernel

end Bench

end Rollup.Store
