import Rollup.Proofs.KeySpace
import Rollup.Request

/-!
This module contains the order in which counters in a store send their commands, as far as it
concerns one bucket: the bucket is recorded directly after it was counted for the first time, and it
leaves the bookkeeping set only directly after it was removed.
-/

namespace Rollup.Store

open Rollup.Time

/--
What a program has just done, as far as it matters for what it may do next.
-/
inductive Phase where
  | idle
  -- the bucket was counted and may be new
  | counted
  -- the bucket was removed
  | removed
deriving DecidableEq

/--
A program respects the bucket at `key` of the named counter: it goes on from a phase in the order
that counters keep, whatever it is replied. What it reads from a bookkeeping set may be taken for
buckets.
-/
inductive Orderly (keys : KeySpace) (name key : String) {α : Type} : Phase → Program α → Prop where
  | done (result : Except CounterError α) : Orderly keys name key .idle (.done result)
  | report (event : Event) {next : Program α} (rest : Orderly keys name key .idle next) :
    Orderly keys name key .idle (.report event next)
  | readAll (places : List String) {next : Fetched → Program α}
    (rest : ∀ fetched, Orderly keys name key .idle (next fetched)) :
    Orderly keys name key .idle (.readAll places next)
  | count (k field : String) (amount : Count) {next : Except Failure Count → Program α}
    (counted : ∀ value, Orderly keys name key
      (if k = key ∧ value = amount then .counted else .idle) (next (.ok value)))
    (failed : ∀ failure, Orderly keys name key .idle (next (.error failure))) :
    Orderly keys name key .idle (.call (.hincrby k field amount) next)
  | record {next : Except Failure Unit → Program α}
    (rest : ∀ result, Orderly keys name key .idle (next result)) :
    Orderly keys name key .counted (.call (.sadd (keys.bookkeeping name) key) next)
  | put (k member : String) {next : Except Failure Unit → Program α}
    (other : ¬(k = keys.bookkeeping name ∧ member = key))
    (bucket : ∀ n, k = keys.bookkeeping n → keys.IsBucketOf n member)
    (rest : ∀ result, Orderly keys name key .idle (next result)) :
    Orderly keys name key .idle (.call (.sadd k member) next)
  | list (k : String) {next : Except Failure (List String) → Program α}
    (listed : ∀ members : List String,
      (∀ n, k = keys.bookkeeping n → ∀ member ∈ members, keys.IsBucketOf n member) →
        Orderly keys name key .idle (next (.ok members)))
    (failed : ∀ failure, Orderly keys name key .idle (next (.error failure))) :
    Orderly keys name key .idle (.call (.smembers k) next)
  | remove (buckets : List String) {next : Except Failure Unit → Program α}
    (bucket : ∀ k ∈ buckets, ∃ n, keys.IsBucketOf n k)
    (removed : Orderly keys name key (if key ∈ buckets then .removed else .idle) (next (.ok ())))
    (failed : ∀ failure, Orderly keys name key .idle (next (.error failure))) :
    Orderly keys name key .idle (.call (.batchDel buckets) next)
  | unrecord (gone : List String) {next : Except Failure Unit → Program α}
    (rest : ∀ result, Orderly keys name key .idle (next result)) :
    Orderly keys name key .removed (.call (.srem (keys.bookkeeping name) gone) next)
  | take (k : String) (gone : List String) {next : Except Failure Unit → Program α}
    (other : ¬(k = keys.bookkeeping name ∧ key ∈ gone))
    (rest : ∀ result, Orderly keys name key .idle (next result)) :
    Orderly keys name key .idle (.call (.srem k gone) next)
  | removeTotal (n : String) {next : Except Failure Unit → Program α}
    (rest : ∀ result, Orderly keys name key .idle (next result)) :
    Orderly keys name key .idle (.call (.del (keys.total n)) next)
  | other (c : Command) {next : Except Failure c.Reply → Program α}
    (verb : c.verb = .incrBy ∨ c.verb = .get ∨ c.verb = .hgetall)
    (rest : ∀ result, Orderly keys name key .idle (next result)) :
    Orderly keys name key .idle (.call c next)

namespace Orderly

variable {keys : KeySpace} {name key : String} {α β : Type} {phase : Phase}

theorem bind {p : Program α} {next : α → Program β} (h : Orderly keys name key phase p)
    (hnext : ∀ a, Orderly keys name key .idle (next a)) :
    Orderly keys name key phase (p.bind next) := by
  -- the first program ends in the idle phase, where the next one begins
  induction h with
  | done result =>
    cases result with
    | ok a => exact hnext a
    | error e => exact done (.error e)
  | report event _ ih => exact report event ih
  | readAll places _ ih => exact readAll places ih
  | count k field amount _ _ ihcounted ihfailed => exact count k field amount ihcounted ihfailed
  | record _ ih => exact record ih
  | put k member hother hbucket _ ih => exact put k member hother hbucket ih
  | list k _ _ ihlisted ihfailed => exact list k ihlisted ihfailed
  | remove buckets hbucket _ _ ihremoved ihfailed => exact remove buckets hbucket ihremoved ihfailed
  | unrecord gone _ ih => exact unrecord gone ih
  | take k gone hother _ ih => exact take k gone hother ih
  | removeTotal n _ ih => exact removeTotal n ih
  | other c verb _ ih => exact other c verb ih

theorem map {p : Program α} (h : Orderly keys name key phase p) (f : α → β) :
    Orderly keys name key phase (f <$> p) :=
  h.bind fun a => done (.ok (f a))

theorem send {c : Command} (h : ∀ next : Except Failure c.Reply → Program c.Reply,
      (∀ result, Orderly keys name key .idle (next result)) →
        Orderly keys name key phase (.call c next)) :
    Orderly keys name key phase (Program.send c) := by
  apply h
  intro result
  cases result with
  | ok reply => exact done (.ok reply)
  | error failure => exact done (.error (.store failure))

theorem branch {c : Prop} [Decidable c] {p q : Program α} (hp : c → Orderly keys name key phase p)
    (hq : ¬c → Orderly keys name key phase q) :
    Orderly keys name key phase (if c then p else q) := by
  split
  · next h => exact hp h
  · next h => exact hq h

theorem lift (result : Except CounterError α) :
    Orderly keys name key .idle (liftExcept result : Program α) := by
  cases result with
  | ok a => exact done (.ok a)
  | error e => exact done (.error e)

theorem tell (event : Event) : Orderly keys name key .idle (Program.tell event) :=
  report event (done (.ok ()))

end Orderly

namespace Counters

open Orderly

variable {keys : KeySpace} {name key : String}

theorem orderly_countIn (hkey : keys.IsBucketOf name key) {n k : String}
    (hk : keys.IsBucketOf n k) (field : String) (amount : Count) :
    Orderly keys name key .idle (countIn (keys.bookkeeping n) k field amount) := by
  apply count
  · intro value
    change Orderly keys name key _ (if value = amount then _ else _)
    apply branch
    · rintro rfl
      -- the value is the amount, so the bucket may be new: this one is recorded, or another one
      by_cases hkk : k = key
      · subst hkk
        rw [if_pos ⟨rfl, rfl⟩, hk.eq hkey]
        exact send fun _ => record
      · rw [if_neg fun h => hkk h.1]
        apply send
        intro _
        apply put
        · exact fun h => hkk h.2
        · intro m hm
          rw [← KeySpace.bookkeeping_inj.1 hm]
          exact hk
    · intro hvalue
      rw [if_neg fun h => hvalue h.2]
      exact done (.ok ())
  · intro failure
    exact done (.error (.store failure))

theorem orderly_countAll (hkey : keys.IsBucketOf name key) {n : String}
    {levels : List (String × String)} (hlevels : ∀ level ∈ levels, keys.IsBucketOf n level.1)
    (amount : Count) : Orderly keys name key .idle (increment.countAll keys n amount levels) := by
  induction levels with
  | nil => exact done (.ok ())
  | cons level levels ih =>
    apply (orderly_countIn hkey (hlevels level List.mem_cons_self) level.2 amount).bind
    intro _
    apply ih
    intro l hl
    exact hlevels l (List.mem_cons_of_mem _ hl)

theorem orderly_increment (hkey : keys.IsBucketOf name key) (n : String) (amount : Count)
    (instant : Instant) : Orderly keys name key .idle (increment keys n amount instant) := by
  apply (lift _).bind
  intro _
  apply (orderly_countAll hkey ?_ amount).bind
  · intro _
    apply bind (p := Program.send (.sadd keys.names n))
    · exact send fun _ => put _ _ (by simp) (by simp)
    · intro _
      apply bind (p := Program.send (.incrBy (keys.total n) amount))
      · exact send fun _ => other _ (Or.inl rfl)
      · intro total
        exact (tell .incremented).bind fun _ => done (.ok total)
  · intro level hlevel
    exact KeySpace.isBucketOf_of_mem_levels hlevel

theorem orderly_reset (hkey : keys.IsBucketOf name key) (n : String) :
    Orderly keys name key .idle (reset keys n) := by
  apply (lift _).bind
  intro _
  apply removeTotal
  intro result
  cases result with
  | error failure => exact done (.error (.store failure))
  | ok _ =>
    apply Orderly.list
    · intro buckets hbuckets
      apply remove
      · intro k hk
        exact ⟨n, hbuckets n rfl k hk⟩
      · apply bind (p := Program.send (.srem (keys.bookkeeping n) buckets))
        · apply send
          intro next hnext
          -- only where the bucket was listed it is taken out, and then it was just removed
          by_cases hmem : key ∈ buckets
          · rw [if_pos hmem, (hbuckets n rfl key hmem).eq hkey]
            exact unrecord buckets hnext
          · rw [if_neg hmem]
            exact take _ _ (fun h => hmem h.2) hnext
        · intro _
          apply bind (p := Program.send (.srem keys.names [n]))
          · exact send fun _ => take _ _ (by simp)
          · exact fun _ => tell .wasReset
      · intro failure
        exact done (.error (.store failure))
    · intro failure
      exact done (.error (.store failure))

theorem orderly_list : Orderly keys name key .idle (list keys) := by
  apply bind (p := Program.send (.smembers keys.names))
  · apply send
    intro next hnext
    apply Orderly.list
    · exact fun members _ => hnext (.ok members)
    · exact fun failure => hnext (.error failure)
  · exact fun names => done (.ok _)

theorem orderly_total (n : String) : Orderly keys name key .idle (total keys n) := by
  apply (lift _).bind
  intro _
  apply other _ (Or.inr (Or.inl rfl))
  intro result
  split
  · exact lift _
  · exact done (.ok 0)
  · exact done (.error _)

theorem orderly_counts (n : String) (interval : Interval) (r : Resolution) :
    Orderly keys name key .idle (counts keys n interval r) := by
  apply (lift _).bind
  intro _
  apply (tell _).bind
  intro _
  apply bind (p := (source keys).counts n interval r)
  · unfold Source.counts
    split
    · apply bind (p := yearCounts keys n)
      · apply bind (p := Program.send (.hgetall (keys.years n)))
        · exact send fun _ => other _ (Or.inr (Or.inr rfl))
        · exact fun hash => (tell _).bind fun _ => done (.ok _)
      · exact fun years => done (.ok _)
    · next b _ =>
      apply (lift _).bind
      intro starts
      apply bind (p := rows keys n b starts)
      · apply readAll
        intro fetched
        split
        · exact (tell _).bind fun _ => done (.ok _)
        · exact (tell _).bind fun _ => done (.error _)
      · exact fun rows => lift _
  · exact fun counts => done (.ok _)

/--
Counters keep the order whatever they are asked.
-/
theorem orderly_answer (hkey : keys.IsBucketOf name key) (r : Request) :
    Orderly keys name key .idle (answer keys r) := by
  cases r with
  | increment n amount instant => exact (orderly_increment hkey n amount instant).map _
  | reset n => exact (orderly_reset hkey n).map _
  | list => exact orderly_list.map _
  | total n => exact (orderly_total n).map _
  | counts n start finish r =>
    apply (lift _).bind
    intro interval
    exact (orderly_counts n interval r).map _
  | countsEnding n count finish r =>
    apply (lift _).bind
    intro interval
    exact (orderly_counts n interval r).map _

end Counters

end Rollup.Store
