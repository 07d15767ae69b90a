import Rollup.Proofs.Store.Frame
import Rollup.Proofs.Store.Pending
import Rollup.Proofs.Store.Served

/-!
This module contains the independence of counters that share a store. The main statement is
`others_unchanged`: a change of one counter, whether it succeeds or fails half way, leaves everything
of all others as it was, and with it the answers to all queries of them.
-/

namespace Rollup

open Rollup.Retry Rollup.Store Rollup.Time

namespace KeySpace

variable {keys : KeySpace} {m n key : String}

/--
A key under which something of a counter may be held. The set of all names belongs to no counter.
-/
def IsKeyOf (keys : KeySpace) (name key : String) : Prop :=
  key = keys.total name ∨ key = keys.bookkeeping name ∨ keys.IsBucketOf name key

theorem IsKeyOf.eq (hm : keys.IsKeyOf m key) (hn : keys.IsKeyOf n key) : m = n := by
  rcases hm with rfl | rfl | ⟨level, a, rfl⟩
  · rcases hn with h | h | ⟨_, _, h⟩
    · exact total_inj.1 h
    · exact absurd h.symm bookkeeping_ne_total
    · exact absurd h total_ne_bucket
  · rcases hn with h | h | ⟨_, _, h⟩
    · exact absurd h bookkeeping_ne_total
    · exact bookkeeping_inj.1 h
    · exact absurd h bookkeeping_ne_bucket
  · rcases hn with h | h | hn
    · exact absurd h bucket_ne_total
    · exact absurd h.symm bookkeeping_ne_bucket
    · exact (isBucketOf_bucket keys m level a).eq hn

theorem not_isKeyOf_names : ¬keys.IsKeyOf m keys.names := by
  rintro (h | h | ⟨_, _, h⟩)
  · exact names_ne_total h
  · exact names_ne_bookkeeping h
  · exact names_ne_bucket h

end KeySpace

def Request.Changes (name : String) : Request → Prop
  | .increment n _ _ | .reset n => n = name
  | _ => False

def Request.Queries (name : String) : Request → Prop
  | .total n | .counts n .. | .countsEnding n .. => n = name
  | _ => False

namespace Store

variable {keys : KeySpace} {m n : String} {c : Command} {d between after : Data}
variable {result : Except Failure c.Reply}

namespace Counters

/--
The commands that change a counter.
-/
def MayWrite (keys : KeySpace) (name : String) : Command → Prop
  | .hincrby key _ _ => keys.IsBucketOf name key
  | .incrBy key _ | .del key => key = keys.total name
  | .sadd key member => (key = keys.bookkeeping name ∧ keys.IsBucketOf name member)
      ∨ (key = keys.names ∧ member = name)
  | .srem key gone => key = keys.bookkeeping name ∨ (key = keys.names ∧ gone = [name])
  | .smembers key => key = keys.bookkeeping name
  | .batchDel buckets => ∀ key ∈ buckets, keys.IsBucketOf name key
  | .hgetall _ | .get _ => False

def MayRead (keys : KeySpace) (name : String) : Command → Prop
  | .get key => key = keys.total name
  | .hgetall key => keys.IsBucketOf name key
  | _ => False

/--
What is read from a bookkeeping set are keys of buckets of its counter.
-/
def ListsBuckets (keys : KeySpace) : (c : Command) → Except Failure c.Reply → Prop
  | .smembers key, .ok members =>
    let members : List String := members
    ∀ n, key = keys.bookkeeping n → ∀ member ∈ members, keys.IsBucketOf n member
  | _, _ => True

def writing (keys : KeySpace) (name : String) : Contract :=
  ⟨MayWrite keys name, fun _ => False, ListsBuckets keys⟩

def reading (keys : KeySpace) (name : String) : Contract :=
  ⟨MayRead keys name, keys.IsBucketOf name, fun _ _ => True⟩

/--
All that counters may ask of a store.
-/
def anything (keys : KeySpace) : Contract :=
  ⟨fun c => (∃ name, MayWrite keys name c) ∨ ∀ key, ¬c.Writes key, fun _ => True, ListsBuckets keys⟩

theorem writing_covers {r : Request} (h : r.Changes n) : (writing keys n).Covers keys r := by
  cases r with
  | increment name amount instant =>
    cases h
    refine ⟨?_, Or.inr ⟨rfl, rfl⟩, rfl⟩
    intro level hlevel
    have hbucket := KeySpace.isBucketOf_of_mem_levels hlevel
    exact ⟨hbucket, Or.inl ⟨rfl, hbucket⟩⟩
  | reset name =>
    cases h
    refine ⟨rfl, rfl, ?_, Or.inr ⟨rfl, rfl⟩⟩
    intro buckets hbuckets
    exact ⟨hbuckets n rfl, Or.inl rfl⟩
  | _ => cases h

theorem reading_covers {r : Request} (h : r.Queries n) : (reading keys n).Covers keys r := by
  cases r with
  | total name =>
    cases h
    exact rfl
  | counts name start finish r =>
    cases h
    exact ⟨KeySpace.isBucketOf_years keys n, fun _ _ => KeySpace.isBucketOf_bucket ..⟩
  | countsEnding name count finish r =>
    cases h
    exact ⟨KeySpace.isBucketOf_years keys n, fun _ _ => KeySpace.isBucketOf_bucket ..⟩
  | _ => cases h

theorem anything_covers (keys : KeySpace) (r : Request) : (anything keys).Covers keys r := by
  cases r with
  | increment name amount instant =>
    obtain ⟨hlevels, hname, htotal⟩ : (writing keys name).Covers keys (.increment name amount instant) :=
      writing_covers rfl
    refine ⟨?_, Or.inl ⟨name, hname⟩, Or.inl ⟨name, htotal⟩⟩
    intro level hlevel
    exact ⟨Or.inl ⟨name, (hlevels level hlevel).1⟩, Or.inl ⟨name, (hlevels level hlevel).2⟩⟩
  | reset name =>
    obtain ⟨htotal, hlist, hbuckets, hname⟩ : (writing keys name).Covers keys (.reset name) :=
      writing_covers rfl
    refine ⟨Or.inl ⟨name, htotal⟩, Or.inl ⟨name, hlist⟩, ?_, Or.inl ⟨name, hname⟩⟩
    intro buckets h
    exact ⟨Or.inl ⟨name, (hbuckets buckets h).1⟩, Or.inl ⟨name, (hbuckets buckets h).2⟩⟩
  | list => exact Or.inr fun _ => id
  | total name => exact Or.inr fun _ => id
  | counts name start finish r => exact ⟨Or.inr fun _ => id, fun _ _ => trivial⟩
  | countsEnding name count finish r => exact ⟨Or.inr fun _ => id, fun _ _ => trivial⟩

theorem MayRead.verb_ne {read : Command} (hread : MayRead keys m read) (hc : MayWrite keys n c) :
    read.verb ≠ c.verb := by
  cases read with
  | get key =>
    cases c with
    | get k => exact hc.elim
    | _ => simp [Command.verb]
  | hgetall key =>
    cases c with
    | hgetall k => exact hc.elim
    | _ => simp [Command.verb]
  | _ => exact hread.elim

theorem MayWrite.isKeyOf_or_eq_names {key : String} (hc : MayWrite keys n c) (h : c.Writes key) :
    keys.IsKeyOf n key ∨ key = keys.names := by
  cases c with
  | hincrby k field amount =>
    cases h
    exact Or.inl (Or.inr (Or.inr hc))
  | incrBy k amount =>
    cases h
    exact Or.inl (Or.inl hc)
  | del k =>
    cases h
    exact Or.inl (Or.inl hc)
  | sadd k member =>
    cases h
    rcases hc with ⟨hbookkeeping, -⟩ | ⟨hnames, -⟩
    · exact Or.inl (Or.inr (Or.inl hbookkeeping))
    · exact Or.inr hnames
  | srem k gone =>
    cases h
    rcases hc with hbookkeeping | ⟨hnames, -⟩
    · exact Or.inl (Or.inr (Or.inl hbookkeeping))
    · exact Or.inr hnames
  | batchDel buckets => exact Or.inl (Or.inr (Or.inr (hc key h)))
  | _ => cases h

end Counters

namespace Data

open Counters

theorem send_of_mayRead (hc : MayRead keys n c) (d : Data) : (send c d).2 = d := by
  cases c with
  | get key =>
    unfold send
    simp only
    split <;> rfl
  | hgetall key => rfl
  | _ => cases hc

theorem SameAt.reply_eq (hc : MayRead keys n c) (h : ∀ key, keys.IsKeyOf n key → d.SameAt key after) :
    (send c d).1 = (send c after).1 := by
  cases c with
  | get key =>
    have htotal := h key (Or.inl hc)
    unfold send
    simp only
    rw [htotal.string]
    split <;> rfl
  | hgetall key => exact congrArg Except.ok (h key (Or.inr (Or.inr hc))).hash_eq.symm
  | _ => cases hc

theorem Tidy.listsBuckets (h : d.Tidy keys) (hget : MayGet c d result after) :
    ListsBuckets keys c result := by
  unfold ListsBuckets
  split
  · next key members =>
    rintro _ n rfl member hmember
    cases (hget.eq_of_ok rfl).1
    exact h n member (Std.ExtTreeSet.mem_toList.1 hmember)
  · trivial

theorem Tidy.allowed (h : d.Tidy keys) (hc : (anything keys).Allows c)
    (hget : MayGet c d result after) : after.Tidy keys := by
  apply h.of_mayGet hget
  intro n member hrecords
  obtain rfl : c = .sadd (keys.bookkeeping n) member := hrecords.command_eq
  -- nothing but buckets of the counter is put into its bookkeeping set
  rcases hc with (⟨name, ⟨hk, hbucket⟩ | ⟨hk, -⟩⟩ | hquiet) | ⟨_, heq, -⟩
  · rwa [KeySpace.bookkeeping_inj.1 hk]
  · exact absurd hk KeySpace.bookkeeping_ne_names
  · exact absurd rfl (hquiet _)
  · cases heq

/--
Nothing of a counter differs, and it is named as it was.
-/
structure SameFor (keys : KeySpace) (name : String) (d after : Data) : Prop where
  at_keys : ∀ key, keys.IsKeyOf name key → d.SameAt key after
  named : name ∈ after.members keys.names ↔ name ∈ d.members keys.names

namespace SameFor

theorem refl (keys : KeySpace) (name : String) (d : Data) : d.SameFor keys name d :=
  ⟨fun key _ => .refl key d, Iff.rfl⟩

theorem trans (h : d.SameFor keys n between) (h' : between.SameFor keys n after) :
    d.SameFor keys n after :=
  ⟨fun key hkey => (h.at_keys key hkey).trans (h'.at_keys key hkey), h'.named.trans h.named⟩

/--
A command that changes one counter leaves all others as they are.
-/
theorem of_mayWrite (hmn : m ≠ n) (hc : MayWrite keys n c) (hget : MayGet c d result after) :
    d.SameFor keys m after where
  at_keys := by
    intro key hkey
    apply hget.changed.sameAt
    intro hwrites
    rcases hc.isKeyOf_or_eq_names hwrites with hother | rfl
    · exact hmn (hkey.eq hother)
    · exact KeySpace.not_isKeyOf_names hkey
  named := by
    rw [hget.mem_members_iff]
    constructor
    · rintro (hrecords | ⟨hbefore, -⟩)
      · obtain rfl : c = .sadd keys.names m := hrecords.command_eq
        rcases hc with ⟨hk, -⟩ | ⟨-, heq⟩
        · exact absurd hk KeySpace.names_ne_bookkeeping
        · exact absurd heq hmn
      · exact hbefore
    · intro hbefore
      refine Or.inr ⟨hbefore, ?_⟩
      rintro (htakes | hremoves)
      · obtain ⟨gone, heq, hgone⟩ := htakes.command_eq
        obtain rfl : c = .srem keys.names gone := heq
        rcases hc with hk | ⟨-, rfl⟩
        · exact absurd hk KeySpace.names_ne_bookkeeping
        · exact hmn (List.mem_singleton.1 hgone)
      · rcases hremoves.command_eq with heq | ⟨buckets, heq, hlisted⟩
        · obtain rfl : c = .del keys.names := heq
          exact KeySpace.names_ne_total hc
        · obtain rfl : c = .batchDel buckets := heq
          obtain ⟨_, _, hbucket⟩ := hc _ hlisted
          exact KeySpace.names_ne_bucket hbucket

end SameFor

end Data

namespace Bench

open Counters

variable {policy? : Option Policy} {bench after : Bench}

theorem tidy_serve (h : bench.data.Tidy keys) (r : Request) :
    (bench.serve keys policy? r).2.data.Tidy keys := by
  apply Client.serve_preserves policy? (anything_covers keys r)
    (P := fun bench : Bench => bench.data.Tidy keys)
  · intro c hc bench htidy
    have hget := worksOn_send c bench
    exact ⟨htidy.listsBuckets hget, htidy.allowed hc hget⟩
  · exact h

theorem tidy_served (keys : KeySpace) (policy? : Option Policy) (deeds : List Deed) :
    (empty.served keys policy? deeds).data.Tidy keys := by
  have hdeeds : ∀ bench : Bench, bench.data.Tidy keys →
      (bench.served keys policy? deeds).data.Tidy keys := by
    induction deeds with
    | nil => exact fun _ h => h
    | cons deed deeds ih =>
      intro bench h
      apply ih
      cases deed with
      | request r => exact tidy_serve h r
      | failNext verb failure times => exact h
  exact hdeeds empty (Data.tidy_empty keys)

/--
Two stores hold the same of a counter, and reading it fails alike in both.
-/
structure ReadAlike (keys : KeySpace) (name : String) (s t : Bench) : Prop where
  at_keys : ∀ key, keys.IsKeyOf name key → s.data.SameAt key t.data
  pending : ∀ c, MayRead keys name c → t.pending c.verb = s.pending c.verb

namespace ReadAlike

variable {s t : Bench}

theorem send (h : s.ReadAlike keys m t) (hc : MayRead keys m c) :
    (send c s).1 = (send c t).1 ∧ (send c s).2.ReadAlike keys m (send c t).2 := by
  have hsame : (Bench.send c s).1 = (Bench.send c t).1 ∧ (Bench.send c s).2.data = s.data
      ∧ (Bench.send c t).2.data = t.data := by
    have hpending := h.pending c hc
    cases hqueue : s.pending c.verb with
    | cons failure rest =>
      rw [hqueue] at hpending
      obtain ⟨hs, hsdata⟩ := send_of_pending_eq_cons hqueue
      obtain ⟨ht, htdata⟩ := send_of_pending_eq_cons hpending
      exact ⟨hs.trans ht.symm, hsdata, htdata⟩
    | nil =>
      rw [hqueue] at hpending
      obtain ⟨hs, hsdata⟩ := send_of_pending_eq_nil hqueue
      obtain ⟨ht, htdata⟩ := send_of_pending_eq_nil hpending
      rw [Data.send_of_mayRead hc] at hsdata htdata
      exact ⟨hs.trans ((Data.SameAt.reply_eq hc h.at_keys).trans ht.symm), hsdata, htdata⟩
  obtain ⟨hreply, hsdata, htdata⟩ := hsame
  refine ⟨hreply, ?_, ?_⟩
  · rw [hsdata, htdata]
    exact h.at_keys
  · intro read hread
    rw [pending_send, pending_send, h.pending read hread]

theorem serve {r : Request} (h : s.ReadAlike keys m t) (hr : r.Queries m) :
    (t.serve keys policy? r).1 = (s.serve keys policy? r).1 := by
  refine (Client.serve_related policy? (reading_covers hr) ?_ h).1.symm
  rintro c hc s t h
  have hread : MayRead keys m c := by
    rcases hc with hc | ⟨key, rfl, hbucket⟩
    · exact hc
    · exact hbucket
  obtain ⟨hreply, hafter⟩ := h.send hread
  exact ⟨hreply, trivial, hafter⟩

end ReadAlike

/--
A request that changes one counter, answered with success or not, leaves everything of all others as
it was and names no more and no fewer of them. Queries of another counter are answered as before.
-/
theorem others_unchanged (keys : KeySpace) (policy? : Option Policy) (deeds : List Deed)
    {m n : String} (hmn : m ≠ n) {r : Request} (hr : r.Changes n) :
    let bench := empty.served keys policy? deeds
    let after := (bench.serve keys policy? r).2
    bench.data.SameFor keys m after.data
      ∧ ∀ q : Request, q.Queries m →
        (after.serve keys policy? q).1 = (bench.serve keys policy? q).1 := by
  intro bench after
  have htidy := tidy_served keys policy? deeds
  have hafter : after.data.Tidy keys ∧ bench.data.SameFor keys m after.data
      ∧ ∀ c, MayRead keys m c → after.pending c.verb = bench.pending c.verb := by
    apply Client.serve_preserves policy? (writing_covers hr)
      (P := fun s : Bench => s.data.Tidy keys ∧ bench.data.SameFor keys m s.data
        ∧ ∀ c, MayRead keys m c → s.pending c.verb = bench.pending c.verb)
    · rintro c (hc | ⟨_, _, hnone⟩) s ⟨htidy, hsame, hpending⟩
      · have hget := worksOn_send c s
        refine ⟨htidy.listsBuckets hget, htidy.allowed (Or.inl (Or.inl ⟨n, hc⟩)) hget,
          hsame.trans (.of_mayWrite hmn hc hget), ?_⟩
        intro read hread
        rw [pending_send, if_neg (hread.verb_ne hc), hpending read hread]
      · cases hnone
    · exact ⟨htidy, .refl keys m bench.data, fun _ _ => rfl⟩
  refine ⟨hafter.2.1, ?_⟩
  intro q hq
  exact ReadAlike.serve ⟨hafter.2.1.at_keys, hafter.2.2⟩ hq

/--
An increment that fails half way, next to a counter whose name looks like a bucket of the first one.
-/
theorem total_after_halfIncrement_of_other :
    let noon : Instant := ⟨⟨2024, 2, 29, by decide, by decide, by decide⟩, 43200, 0, by decide,
      by decide, by decide⟩
    let one : Count := ⟨1, by decide, by decide⟩
    let deeds : List Deed :=
      [.request (.increment "a:2024" one noon), .failNext .sadd .timeout 3]
    let r : Request := .increment "a" one noon
    ((empty.served .standard (some .standard) deeds).serve .standard (some .standard) r).1
        = .error (.store .timeout)
      ∧ (((empty.served .standard (some .standard) deeds).serve .standard (some .standard) r).2.serve
        .standard (some .standard) (.total "a:2024")).1 = .ok (.count one) := by
  intro noon one deeds r
  have hothers := others_unchanged .standard (some .standard) deeds (m := "a:2024") (n := "a")
    (by decide) (r := r) rfl
  have htotal : ((empty.served .standard (some .standard) deeds).serve .standard (some .standard)
      (.total "a:2024")).1 = .ok (.count one) := by
    decide +kernel
  exact ⟨by decide +kernel, (hothers.2 (.total "a:2024") rfl).trans htotal⟩

end Bench

end Store

end Rollup
