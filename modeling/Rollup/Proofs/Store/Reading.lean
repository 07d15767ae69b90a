import Rollup.Proofs.Store.Run
import Rollup.Proofs.Store.Sent
import Rollup.Proofs.Text.Numeral

/-!
This module contains what queries read from a store: an answer is always that of the data, read
without any commands. Where no command fails there always is an answer.
-/

namespace Rollup

theorem Count.read_text (a : Count) : Count.read a.text = .ok a := by
  have hread : Text.readSigned 64 a.text = .ok a.val :=
    Text.readSigned_decimal a.min_le a.le_max
  unfold Count.read
  split
  · next n h =>
    rw [hread] at h
    cases h
    rfl
  · next e h =>
    rw [hread] at h
    cases h

end Rollup

namespace Rollup.Store

open Rollup.Time

def Data.source (keys : KeySpace) (d : Data) : Source (Except CounterError) :=
  .oneByOne (fun name b start => return Counters.row b start (d.hash (b.key keys name start)))
    (fun name => return Counters.yearsOf (d.hash (keys.years name)))

section

variable {σ : Type} {client : Client σ} {data : σ → Data} {s : σ}

theorem Client.WorksOn.readInTurn_eq_all (hclient : client.WorksOn data) {places : List String}
    {hashes : List Hash} (h : (client.readInTurn places s).1 = .all hashes) :
    hashes = places.map (data s).hash := by
  induction places generalizing s hashes with
  | nil =>
    cases h
    rfl
  | cons place places ih =>
    have hget := hclient (.hgetall place) s
    unfold Client.readInTurn at h
    generalize client (.hgetall place) s = out at h hget
    obtain ⟨reply, s'⟩ := out
    cases reply with
    | error failure => cases h
    | ok hash =>
      obtain ⟨hreply, hsame⟩ := hget.eq_of_ok rfl
      cases hreply
      have hsame : data s' = data s := hsame
      simp only at h
      cases hrest : (client.readInTurn places s').1 with
      | all rest =>
        have := ih hrest
        generalize client.readInTurn places s' = out at h hrest
        obtain ⟨fetched, s''⟩ := out
        cases hrest
        cases h
        rw [List.map_cons, this, hsame]
      | broken failure arrived =>
        generalize client.readInTurn places s' = out at h hrest
        obtain ⟨fetched, s''⟩ := out
        cases hrest
        cases h

theorem Data.readInTurn_send (places : List String) (d : Data) :
    Client.readInTurn Data.send places d = (.all (places.map d.hash), d) := by
  induction places with
  | nil => rfl
  | cons place places ih =>
    unfold Client.readInTurn
    simp only [Data.send, ih]
    rfl

end

namespace Counters

variable {σ : Type} {client : Client σ} {data : σ → Data} {s : σ} {keys : KeySpace}
variable {name : String}

theorem map_zip_map {α β γ : Type} (f : α × β → γ) (g : α → β) (xs : List α) :
    (xs.zip (xs.map g)).map f = xs.map fun x => f (x, g x) := by
  induction xs with
  | nil => rfl
  | cons x xs ih => simp [ih]

theorem run_rows (rt : Runtime σ) (b : Bucket) (starts : List Instant) :
    ((rows keys name b starts).run rt s).1
      = match (rt.readAll (starts.map (b.key keys name)) s).1 with
        | .all hashes => .ok ((starts.zip hashes).map fun (start, hash) => row b start hash)
        | .broken failure _ => .error (.store failure) := by
  unfold rows
  rw [Program.run]
  generalize rt.readAll (starts.map (b.key keys name)) s = out
  obtain ⟨fetched, s'⟩ := out
  cases fetched <;> rfl

theorem run_rows_eq_ok (hclient : client.WorksOn data) {b : Bucket} {starts : List Instant}
    {read : List (List Count)} (h : ((rows keys name b starts).run client.bare s).1 = .ok read) :
    (Data.source keys (data s)).rows name b starts = .ok read := by
  rw [run_rows] at h
  split at h
  · next hashes hall =>
    cases h
    rw [hclient.readInTurn_eq_all hall, List.map_map, map_zip_map]
    exact List.mapM_pure
  · cases h

theorem run_yearCounts_eq_ok (hclient : client.WorksOn data) {years : YearCounts}
    (h : ((yearCounts keys name).run client.bare s).1 = .ok years) :
    (Data.source keys (data s)).yearCounts name = .ok years := by
  obtain ⟨hash, hreply, hrun⟩ := Program.run_send_bind_eq_ok h
  have hyears := (congrArg Prod.fst hrun).symm.trans h
  cases hyears
  cases ((hclient _ _).eq_of_ok hreply).1
  rfl

theorem run_source_counts_eq_ok (hclient : client.WorksOn data) {interval : Interval}
    {r : Resolution} {read : List Count}
    (h : (((source keys).counts name interval r).run client.bare s).1 = .ok read) :
    (Data.source keys (data s)).counts name interval r = .ok read := by
  unfold Source.counts at h ⊢
  cases hb : r.bucket? with
  | none =>
    simp only [hb] at h ⊢
    obtain ⟨years, hyears, h⟩ := Program.run_bind_eq_ok h
    cases h
    rw [run_yearCounts_eq_ok hclient hyears]
    rfl
  | some b =>
    simp only [hb] at h ⊢
    cases hstarts : b.startsOf interval with
    | error e =>
      simp only [hstarts] at h
      cases h
    | ok starts =>
      simp only [hstarts] at h ⊢
      obtain ⟨read', hread, h⟩ := Program.run_bind_eq_ok (p := rows keys name b starts) h
      have hrows := run_rows_eq_ok hclient hread
      rw [Program.run_lift] at h
      change (do
        let rows ← (Data.source keys (data s)).rows name b starts
        liftExcept (b.cutRows interval rows)) = _
      rw [hrows]
      change liftExcept (b.cutRows interval read') = _
      rw [show b.cutRows interval read' = .ok read from h]
      rfl

theorem run_counts_eq_ok (hclient : client.WorksOn data) {interval : Interval} {r : Resolution}
    {series : Series} (h : ((counts keys name interval r).run client.bare s).1 = .ok series) :
    name ≠ "" ∧ (Data.source keys (data s)).resolve name interval r = .ok series := by
  unfold counts checkName at h
  by_cases hname : name = ""
  · rw [if_pos hname] at h
    cases h
  · refine ⟨hname, ?_⟩
    rw [if_neg hname] at h
    obtain ⟨read, hread, h⟩ :=
      Program.run_bind_eq_ok (p := (source keys).counts name interval r) h
    cases h
    unfold Source.resolve
    rw [run_source_counts_eq_ok (s := s) hclient hread]
    rfl

theorem readTotal_text (a : Count) : readTotal a.text = .ok a := by
  unfold readTotal
  rw [Count.read_text]

/--
A total, if it is answered, is that of the data or zero, as a failure may say that there is none.
-/
theorem run_total_eq_ok (hclient : client.WorksOn data) {answered : Count}
    (h : ((total keys name).run client.bare s).1 = .ok answered) :
    name ≠ "" ∧ (answered = 0 ∨ (data s).strings[keys.total name]? = some answered) := by
  unfold total checkName at h
  by_cases hname : name = ""
  · rw [if_pos hname] at h
    cases h
  · refine ⟨hname, ?_⟩
    rw [if_neg hname] at h
    have hget := hclient (.get (keys.total name)) s
    change (Program.run client.bare (.call (.get (keys.total name)) _) s).1 = _ at h
    rw [Program.run_call] at h
    cases hreply : (client (.get (keys.total name)) s).1 with
    | ok text =>
      right
      rw [hreply] at h hget
      have hsend := (hget.eq_of_ok rfl).1
      unfold Data.send at hsend
      cases hvalue : (data s).strings[keys.total name]? with
      | none => simp [hvalue] at hsend
      | some value =>
        simp only [hvalue] at hsend
        cases hsend
        change ((liftExcept (readTotal value.text) : Program Count).run client.bare _).1 = _ at h
        rw [Program.run_lift, readTotal_text] at h
        cases h
        rfl
    | error failure =>
      left
      -- of all failures only the one that there is no such string is answered
      rw [hreply] at h
      cases failure <;> cases h
      rfl

theorem run_list_eq_ok (hclient : client.WorksOn data) {names : List String}
    (h : ((list keys).run client.bare s).1 = .ok names) :
    names = ((data s).members keys.names).toList.mergeSort := by
  obtain ⟨reply, hreply, hrun⟩ := Program.run_send_bind_eq_ok h
  have hnames := (congrArg Prod.fst hrun).symm.trans h
  cases hnames
  cases ((hclient _ _).eq_of_ok hreply).1
  rfl

section

variable (d : Data) (b : Bucket) (starts : List Instant) (interval : Interval) (r : Resolution)

theorem run_rows_send : (rows keys name b starts).run Data.send.bare d
    = ((Data.source keys d).rows name b starts, d) := by
  have hread : Data.send.bare.readAll (starts.map (b.key keys name)) d
      = (.all ((starts.map (b.key keys name)).map d.hash), d) := Data.readInTurn_send _ d
  have hrows : (Data.source keys d).rows name b starts
      = .ok (starts.map fun start => row b start (d.hash (b.key keys name start))) :=
    List.mapM_pure
  unfold rows
  rw [Program.run, hread, hrows, ← map_zip_map (fun start => row b start.1 start.2)]
  rw [List.map_map]
  rfl

theorem run_source_counts_send : ((source keys).counts name interval r).run Data.send.bare d
    = ((Data.source keys d).counts name interval r, d) := by
  unfold Source.counts
  cases r.bucket? with
  | none => rfl
  | some b =>
    simp only
    cases b.startsOf interval with
    | error e => rfl
    | ok starts =>
      change (Program.bind (rows keys name b starts) fun rows =>
        liftExcept (b.cutRows interval rows)).run Data.send.bare d = _
      rw [Program.run_bind, run_rows_send]
      change _ = ((Data.source keys d).rows name b starts >>= fun rows =>
        liftExcept (b.cutRows interval rows), d)
      cases (Data.source keys d).rows name b starts with
      | error e => rfl
      | ok rows =>
        simp only
        rw [Program.run_lift]
        change _ = (liftExcept (b.cutRows interval rows), d)
        cases b.cutRows interval rows <;> rfl

theorem run_counts_send : (counts keys name interval r).run Data.send.bare d
    = ((do
      checkName name
      (Data.source keys d).resolve name interval r), d) := by
  unfold counts checkName
  split
  · rfl
  · change (Program.bind ((source keys).counts name interval r) _).run Data.send.bare d = _
    rw [Program.run_bind, run_source_counts_send]
    change _ = ((Data.source keys d).resolve name interval r, d)
    unfold Source.resolve
    cases (Data.source keys d).counts name interval r <;> rfl

theorem run_total_send : (total keys name).run Data.send.bare d
    = ((do
      checkName name
      return d.strings.getD (keys.total name) 0), d) := by
  unfold total checkName
  split
  · rfl
  · change Program.run Data.send.bare (.call (.get (keys.total name)) _) d = _
    rw [Program.run_call]
    unfold Data.send
    rw [Std.ExtTreeMap.getD_eq_getD_getElem?]
    cases h : d.strings[keys.total name]? with
    | none => simp only [h]; rfl
    | some value =>
      simp only [h]
      rw [readTotal_text]
      rfl

theorem run_list_send : (list keys).run Data.send.bare d
    = (.ok (d.members keys.names).toList.mergeSort, d) := rfl

end

end Counters

end Rollup.Store
