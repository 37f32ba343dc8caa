import FrpProvisioner.Effect.Trace
import FrpProvisioner.Runtime.Informer

/-! What an informer has is what was stored: for every object the indexer holds an earlier state
and all later ones are on their way, one after the other, through the queue and the watch. A
watch that was lost is made up for by the list that follows. -/
namespace FrpProvisioner
open Effect
variable {α K : Type} [DecidableEq K] {key : α → K}

namespace Informer

/-- What is in the indexer or on its way to it is what was stored one after the other, up to
what is stored now unless the watch is lost. `P` is what holds of everything that is stored. -/
structure Tracks (version : α → ℕ) (P : α → Prop) (stored : Table key) (revision : ℕ)
    (inf : Informer key) : Prop where
  valid : inf.fifo.Valid key
  sound : ∀ x ∈ stored, P x ∧ version x ≤ revision
  follows : ∀ k, Feed.Follows Delta.result (Delta.Possible version) (inf.indexer.find? k)
    (inf.pending k)
  latest : inf.connected = true → ∀ k,
    Feed.latest Delta.result (inf.indexer.find? k) (inf.pending k) = stored.find? k
  seen : ∀ k, ∀ o ∈ inf.states k, P o ∧ version o ≤ revision ∧
    ∀ x, stored.find? k = some x → version x = version o → x = o
  cut : inf.connected = false → inf.wire = []

/-- The versions of what is written are new. -/
structure Advances (version : α → ℕ) (old : Table key) (revision : ℕ) (content : Table key)
    (revision' : ℕ) : Prop where
  le : revision ≤ revision'
  fresh : ∀ y ∈ content, y ∈ old ∨ revision < version y ∧ version y ≤ revision'

section Pending
variable {inf : Informer key} {version : α → ℕ} {P : α → Prop} {stored content : Table key}
  {revision revision' : ℕ} {k : K}

theorem pending_record [DecidableEq α] (h : inf.connected = true) (old content : Table key)
    (k : K) : (inf.record old content).pending k = inf.pending k ++
      (changeOf (old.find? k) (content.find? k)).map WatchEvent.delta := by
  unfold record pending
  rw [if_pos h]
  simp only [List.filter_append, List.map_append, filter_changes, List.append_assoc]

theorem mem_of_latest {p : Option α} {ds : List (Delta α)} {o : α}
    (h : Feed.latest Delta.result p ds = some o) : o ∈ p.toList ++ ds.map Delta.object := by
  induction ds generalizing p with
  | nil =>
    obtain rfl : p = some o := h
    simp
  | cons d ds ih =>
    rcases List.mem_append.mp (ih h) with hd | hd
    · have hobject : d.object = o := by
        by_cases htype : d.type = .deleted
        · simp [Delta.result, htype] at hd
        · simp only [Delta.result_of_ne htype, Option.toList_some, List.mem_singleton] at hd
          exact hd.symm
      simp [hobject]
    · simp [List.mem_map.mp hd]

/-- A watch reports what can happen to the object. -/
theorem follows_changeOf [DecidableEq α] (hsound : ∀ x ∈ stored, P x ∧ version x ≤ revision)
    (ha : Advances version stored revision content revision') (k : K) :
    Feed.Follows Delta.result (Delta.Possible version) (stored.find? k)
      ((changeOf (stored.find? k) (content.find? k)).map WatchEvent.delta) := by
  cases hold : stored.find? k with
  | none =>
    cases content.find? k with
    | none => exact trivial
    | some y => exact ⟨⟨by simp [WatchEvent.delta], by simp⟩, trivial⟩
  | some x =>
    cases hnew : content.find? k with
    | none => exact ⟨⟨by simp [WatchEvent.delta], by simp [WatchEvent.delta]⟩, trivial⟩
    | some y =>
      simp only [changeOf]
      split_ifs with hxy
      · exact trivial
      · refine ⟨⟨by simp [WatchEvent.delta], fun _ o ho hv => ?_⟩, trivial⟩
        -- the version of `y` is a new one
        obtain rfl : x = o := Option.some.inj ho
        obtain ⟨hx, hxk⟩ := Table.find?_eq_some.mp hold
        obtain ⟨hy, hyk⟩ := Table.find?_eq_some.mp hnew
        have hv : version x = version y := hv
        rcases ha.fresh y hy with hy | ⟨hlt, -⟩
        · exact absurd (Table.eq_of_key hy hx (hyk.trans hxk.symm)) hxy
        · have := (hsound x hx).2
          omega

theorem latest_changeOf [DecidableEq α] (p q : Option α) :
    Feed.latest Delta.result p ((changeOf p q).map WatchEvent.delta) = q := by
  cases p with
  | none => cases q <;> rfl
  | some x =>
    cases q with
    | none => rfl
    | some y =>
      simp only [changeOf]
      split_ifs with h
      · rw [h]
        rfl
      · rfl

theorem tracks_new (hsound : ∀ x ∈ stored, P x ∧ version x ≤ revision) :
    (new : Informer key).Tracks version P stored revision where
  valid := DeltaFIFO.valid_new
  sound := hsound
  follows k := by simp [new, pending, DeltaFIFO.new]
  latest h := by cases h
  seen k o ho := by simp [new, states, pending, DeltaFIFO.new, Table.find?, Table.empty] at ho
  cut _ := rfl

/-- What was seen before a write was seen before the versions that it gives. -/
theorem Tracks.seen_advances (h : inf.Tracks version P stored revision)
    (ha : Advances version stored revision content revision') {o : α} (ho : o ∈ inf.states k) :
    P o ∧ version o ≤ revision' ∧
      ∀ x, content.find? k = some x → version x = version o → x = o := by
  obtain ⟨hP, hle, heq⟩ := h.seen k o ho
  refine ⟨hP, hle.trans ha.le, fun x hx hv => ?_⟩
  obtain ⟨hmem, hk⟩ := Table.find?_eq_some.mp hx
  rcases ha.fresh x hmem with hold | ⟨hlt, -⟩
  · exact heq x (Table.find?_eq_some.mpr ⟨hold, hk⟩) hv
  · omega

omit [DecidableEq K] in
theorem Advances.sound (ha : Advances version stored revision content revision')
    (h : ∀ x ∈ stored, P x ∧ version x ≤ revision) (hP : ∀ y ∈ content, P y) :
    ∀ y ∈ content, P y ∧ version y ≤ revision' := by
  intro y hy
  refine ⟨hP y hy, ?_⟩
  rcases ha.fresh y hy with hold | ⟨-, hle⟩
  · exact (h y hold).2.trans ha.le
  · exact hle

theorem Tracks.record [DecidableEq α] (h : inf.Tracks version P stored revision)
    (ha : Advances version stored revision content revision') (hP : ∀ y ∈ content, P y) :
    (inf.record stored content).Tracks version P content revision' := by
  cases hc : inf.connected with
  | false =>
    unfold Informer.record
    rw [if_neg (by simp [hc])]
    exact ⟨h.valid, ha.sound h.sound hP, h.follows, by simp [hc], fun k o => h.seen_advances ha,
      h.cut⟩
  | true =>
    refine ⟨?_, ha.sound h.sound hP, fun k => ?_, fun _ k => ?_, fun k o ho => ?_, ?_⟩
    · rw [record_fifo]
      exact h.valid
    · rw [record_indexer, pending_record hc, Feed.follows_append, h.latest hc k]
      exact ⟨h.follows k, follows_changeOf h.sound ha k⟩
    · rw [record_indexer, pending_record hc, Feed.latest_append, h.latest hc k, latest_changeOf]
    · rw [states, record_indexer, pending_record hc, List.map_append, ← List.append_assoc,
        List.mem_append] at ho
      rcases ho with ho | ho
      · exact h.seen_advances ha ho
      · simp only [List.mem_map, exists_exists_and_eq_and, WatchEvent.delta_object] at ho
        obtain ⟨e, he, rfl⟩ := ho
        rcases mem_changeOf he with hold | hnew
        · refine h.seen_advances ha (mem_of_latest ?_)
          rw [h.latest hc k, hold]
        · obtain ⟨hP, hle⟩ := ha.sound h.sound hP _ (Table.find?_eq_some.mp hnew).1
          refine ⟨hP, hle, fun x hx _ => ?_⟩
          exact Option.some.inj (hx.symm.trans hnew)
    · simp [hc]

theorem Tracks.disconnect (h : inf.Tracks version P stored revision) :
    inf.disconnect.Tracks version P stored revision := by
  have hpending : ∀ k, inf.disconnect.pending k = inf.fifo.items k := by
    simp [Informer.disconnect, pending]
  refine ⟨h.valid, h.sound, fun k => ?_, (by simp [Informer.disconnect]), fun k o ho => ?_,
    fun _ => rfl⟩
  · rw [hpending]
    exact (Feed.follows_append.mp (h.follows k)).1
  · rw [states, hpending] at ho
    refine h.seen k o ?_
    unfold states pending
    rw [List.map_append, ← List.append_assoc]
    exact List.mem_append_left _ ho

theorem pending_relist (h : inf.fifo.Valid key) (stored : Table key) (k : K) :
    (inf.relist stored).pending k =
      match stored.find? k with
      | some x => inf.fifo.items k ++ [⟨.replaced, x, false⟩]
      | none =>
        if inf.fifo.items k = [] then
          (inf.indexer.find? k).toList.map fun x => ⟨.deleted, x, true⟩
        else DeltaFIFO.sweepDeltas (inf.fifo.items k) := by
  unfold relist pending
  simp only [List.filter_nil, List.map_nil, List.append_nil]
  exact DeltaFIFO.items_replace h inf.indexer stored k

/-- A list deletes what it does not hold, after what is queued. -/
theorem follows_sweepDeltas {p : Option α} {ds : List (Delta α)} (hne : ds ≠ [])
    (h : Feed.Follows Delta.result (Delta.Possible version) p ds) :
    Feed.Follows Delta.result (Delta.Possible version) p (DeltaFIFO.sweepDeltas ds) ∧
      Feed.latest Delta.result p (DeltaFIFO.sweepDeltas ds) = none ∧
      ∀ d ∈ DeltaFIFO.sweepDeltas ds, ∃ e ∈ ds, e.object = d.object := by
  induction ds using List.reverseRecOn with
  | nil => exact absurd rfl hne
  | append_singleton ds newest _ =>
    obtain ⟨hds, hnewest, -⟩ := Feed.follows_append.mp h
    rw [DeltaFIFO.sweepDeltas_snoc, dedupDeltas_snoc_snoc]
    cases hdup : isDup ⟨.deleted, newest.object, true⟩ newest with
    | some out =>
      obtain ⟨-, htype, hout⟩ := isDup_eq_some hdup
      -- the deletion that is queued stays, or its tombstone does
      have hsame : out.type = .deleted ∧ out.object = newest.object := by
        rcases hout with rfl | rfl
        · exact ⟨rfl, rfl⟩
        · exact ⟨htype, rfl⟩
      refine ⟨Feed.follows_append.mpr ⟨hds, ⟨fun _ => ?_, fun hne => absurd hsame.1 hne⟩,
        trivial⟩, by simp [Delta.result, hsame.1], fun d hd => ?_⟩
      · rw [hsame.2]
        exact hnewest.deleted htype
      · rcases List.mem_append.mp hd with hd | hd
        · exact ⟨d, List.mem_append_left _ hd, rfl⟩
        · rw [List.mem_singleton.mp hd]
          exact ⟨newest, by simp, hsame.2.symm⟩
    | none =>
      have htype : newest.type ≠ .deleted := by
        intro htype
        simp only [isDup, htype] at hdup
        split_ifs at hdup
        all_goals simp_all
      refine ⟨Feed.follows_append.mpr ⟨h, ⟨fun _ => ?_, fun hne => absurd rfl hne⟩, trivial⟩,
        by simp, fun d hd => ?_⟩
      · simp [Delta.result_of_ne htype]
      · rcases List.mem_append.mp hd with hd | hd
        · exact ⟨d, hd, rfl⟩
        · rw [List.mem_singleton.mp hd]
          exact ⟨newest, by simp, rfl⟩

theorem Tracks.relist (h : inf.Tracks version P stored revision) :
    (inf.relist stored).Tracks version P stored revision := by
  have hqueued : ∀ k, Feed.Follows Delta.result (Delta.Possible version) (inf.indexer.find? k)
      (inf.fifo.items k) := fun k => (Feed.follows_append.mp (h.follows k)).1
  have hstates : ∀ k o, o ∈ (inf.indexer.find? k).toList ++ (inf.fifo.items k).map Delta.object →
      o ∈ inf.states k := by
    intro k o ho
    unfold states pending
    rw [List.map_append, ← List.append_assoc]
    exact List.mem_append_left _ ho
  have hall : ∀ k, Feed.Follows Delta.result (Delta.Possible version) (inf.indexer.find? k)
        ((inf.relist stored).pending k) ∧
      Feed.latest Delta.result (inf.indexer.find? k) ((inf.relist stored).pending k) =
        stored.find? k ∧
      ∀ d ∈ (inf.relist stored).pending k, d.object ∈ inf.states k ∨
        stored.find? k = some d.object := by
    intro k
    rw [pending_relist h.valid]
    cases hk : stored.find? k with
    | some x =>
      refine ⟨Feed.follows_append.mpr ⟨hqueued k, ⟨by simp, fun _ o ho hv => ?_⟩, trivial⟩,
        by simp [Delta.result], fun d hd => ?_⟩
      · have hv : version o = version x := hv
        exact ((h.seen k o (hstates k o (mem_of_latest ho))).2.2 x hk hv.symm).symm
      · rcases List.mem_append.mp hd with hd | hd
        · exact Or.inl (hstates k _ (List.mem_append_right _ (List.mem_map.mpr ⟨d, hd, rfl⟩)))
        · rw [List.mem_singleton.mp hd]
          exact Or.inr rfl
    | none =>
      dsimp only
      split_ifs with hnil
      · cases hx : inf.indexer.find? k with
        | none => exact ⟨trivial, rfl, by simp⟩
        | some x =>
          refine ⟨⟨⟨fun _ => rfl, fun hne => absurd rfl hne⟩, trivial⟩, rfl, fun d hd => ?_⟩
          obtain rfl : d = ⟨.deleted, x, true⟩ := by simpa using hd
          exact Or.inl (hstates k x (by simp [hx]))
      · obtain ⟨hfollows, hlatest, hobjects⟩ := follows_sweepDeltas hnil (hqueued k)
        refine ⟨hfollows, hlatest, fun d hd => ?_⟩
        obtain ⟨e, he, heq⟩ := hobjects d hd
        rw [← heq]
        exact Or.inl (hstates k _ (List.mem_append_right _ (List.mem_map.mpr ⟨e, he, rfl⟩)))
  refine ⟨h.valid.replace inf.indexer stored.entries, h.sound, fun k => (hall k).1,
    fun _ k => (hall k).2.1, fun k o ho => ?_, fun hc => by cases hc⟩
  rcases List.mem_append.mp ho with ho | ho
  · exact h.seen k o (List.mem_append_left _ ho)
  · obtain ⟨d, hd, rfl⟩ := List.mem_map.mp ho
    rcases (hall k).2.2 d hd with hd | hd
    · exact h.seen k _ hd
    · obtain ⟨hP, hle⟩ := h.sound _ (Table.find?_eq_some.mp hd).1
      exact ⟨hP, hle, fun x hx _ => Option.some.inj (hx.symm.trans hd)⟩

/-- The deletion of an object that is there is neither skipped nor a repetition. -/
theorem items_queueEvent {e : WatchEvent α} (h : Delta.Possible version
      (Feed.latest Delta.result (inf.indexer.find? (key e.object))
        (inf.fifo.items (key e.object))) e.delta) (k : K) :
    (inf.queueEvent e).items k =
      if k = key e.object then inf.fifo.items k ++ [e.delta] else inf.fifo.items k := by
  obtain ⟨type, object⟩ := e
  cases type with
  | added =>
    simp only [queueEvent, DeltaFIFO.add, DeltaFIFO.items_queueActionLocked]
    rw [dedupDeltas_snoc_of_ne (by simp)]
    rfl
  | modified =>
    simp only [queueEvent, DeltaFIFO.update, DeltaFIFO.items_queueActionLocked]
    rw [dedupDeltas_snoc_of_ne (by simp)]
    rfl
  | deleted =>
    have hthere := h.deleted rfl
    have hknown : ¬ (inf.indexer.find? (key object) = none ∧
        inf.fifo.items (key object) = []) := by
      rintro ⟨hnone, hnil⟩
      rw [hnil, hnone] at hthere
      cases hthere
    simp only [queueEvent, DeltaFIFO.delete, if_neg hknown, DeltaFIFO.items_queueActionLocked]
    split_ifs with hk
    · subst hk
      exact dedupDeltas_snoc_of_latest hthere
    · rfl

theorem valid_queueEvent (h : inf.fifo.Valid key) (e : WatchEvent α) :
    (inf.queueEvent e).Valid key := by
  have hpop : { inf.fifo with populated := true }.Valid key := h.of_eq rfl rfl
  unfold queueEvent
  cases e.type with
  | added => exact hpop.queueActionLocked rfl
  | modified => exact hpop.queueActionLocked rfl
  | deleted =>
    dsimp only
    unfold DeltaFIFO.delete
    split_ifs
    · exact hpop
    · exact hpop.queueActionLocked rfl

/-- Nothing that is on its way is lost or changed between the watch and the queue. -/
theorem Tracks.pending_watchHandler (h : inf.Tracks version P stored revision) (k : K) :
    inf.watchHandler.pending k = inf.pending k := by
  unfold Informer.watchHandler
  split
  · rfl
  next e rest hwire =>
    have hpossible : Delta.Possible version
        (Feed.latest Delta.result (inf.indexer.find? (key e.object))
          (inf.fifo.items (key e.object))) e.delta := by
      have hfollows := h.follows (key e.object)
      unfold pending at hfollows
      rw [hwire, List.filter_cons_of_pos (by simp), List.map_cons, Feed.follows_append] at hfollows
      exact hfollows.2.1
    unfold pending
    dsimp only
    rw [items_queueEvent hpossible, hwire]
    split_ifs with hk
    · simp [hk]
    · simp [Ne.symm hk]

theorem Tracks.watchHandler (h : inf.Tracks version P stored revision) :
    inf.watchHandler.Tracks version P stored revision := by
  have hpending := h.pending_watchHandler
  refine ⟨?_, h.sound, fun k => ?_, fun hc k => ?_, fun k o ho => ?_, fun hc => ?_⟩
  · unfold Informer.watchHandler
    split
    · exact h.valid
    · exact valid_queueEvent h.valid _
  · rw [watchHandler_indexer, hpending]
    exact h.follows k
  · rw [watchHandler_connected] at hc
    rw [watchHandler_indexer, hpending]
    exact h.latest hc k
  · rw [states, watchHandler_indexer, hpending] at ho
    exact h.seen k o ho
  · rw [watchHandler_connected] at hc
    have hwire := h.cut hc
    unfold Informer.watchHandler
    rw [hwire]
    exact hwire

/-- A resync repeats what the indexer has of an object for which nothing is queued. -/
theorem pending_resync (inf : Informer key) (k : K) : inf.resync.pending k =
    if inf.fifo.items k = [] then
      ((inf.indexer.find? k).toList.map fun x => ⟨.sync, x, false⟩) ++ inf.pending k
    else inf.pending k := by
  unfold Informer.resync pending
  dsimp only
  rw [DeltaFIFO.items_resync]
  split_ifs with hnil
  · rw [hnil, List.nil_append]
  · rfl

theorem Tracks.resync (h : inf.Tracks version P stored revision) :
    inf.resync.Tracks version P stored revision := by
  have hsync : ∀ (p : Option α) (ds : List (Delta α)),
      Feed.Follows Delta.result (Delta.Possible version) p ds →
      Feed.Follows Delta.result (Delta.Possible version) p
          ((p.toList.map fun x => ⟨.sync, x, false⟩) ++ ds) ∧
        Feed.latest Delta.result p ((p.toList.map fun x => ⟨.sync, x, false⟩) ++ ds) =
          Feed.latest Delta.result p ds := by
    intro p ds hds
    cases p with
    | none => exact ⟨hds, rfl⟩
    | some x => exact ⟨⟨⟨by simp, fun _ o ho _ => (Option.some.inj ho).symm⟩, hds⟩, rfl⟩
  refine ⟨h.valid.resync inf.indexer, h.sound, fun k => ?_, fun hc k => ?_, fun k o ho => ?_, h.cut⟩
  · rw [pending_resync]
    split_ifs
    · exact (hsync _ _ (h.follows k)).1
    · exact h.follows k
  · rw [pending_resync]
    split_ifs
    · exact (hsync _ _ (h.follows k)).2.trans (h.latest hc k)
    · exact h.latest hc k
  · refine h.seen k o ?_
    rw [states, pending_resync] at ho
    split_ifs at ho
    · rw [List.map_append, List.map_map, List.mem_append, List.mem_append] at ho
      rcases ho with ho | ho | ho
      · exact List.mem_append_left _ ho
      · exact List.mem_append_left _ (by simpa using ho)
      · exact List.mem_append_right _ ho
    · exact ho

/-- What one `Pop` does, for the key it pops. -/
structure Pops (version : α → ℕ) (syncing : Bool) (inf inf' : Informer key) (j : K) : Prop where
  queued : j ∈ inf.fifo.queue
  pending : ∀ k, inf'.pending k =
    if k = j then (inf.wire.filter fun e => key e.object = j).map WatchEvent.delta
    else inf.pending k
  indexer : ∀ k, inf'.indexer.find? k =
    if k = j then Feed.latest Delta.result (inf.indexer.find? j) (inf.fifo.items j)
    else inf.indexer.find? k
  notifications : inf'.pendingNotifications = inf.pendingNotifications ++
    (processDeltas version syncing inf.indexer (inf.fifo.items j)).2
  wire : inf'.wire = inf.wire
  connected : inf'.connected = inf.connected
  valid : inf'.fifo.Valid key

theorem handleDeltas_pops (h : inf.fifo.Valid key) (version : α → ℕ) (syncing : Bool) :
    (inf.fifo.queue = [] ∧ inf.handleDeltas version syncing = inf) ∨
      ∃ j, Pops version syncing inf (inf.handleDeltas version syncing) j := by
  cases hpop : inf.fifo.pop with
  | none =>
    refine Or.inl ⟨?_, ?_⟩
    · unfold DeltaFIFO.pop at hpop
      split at hpop
      · assumption
      · cases hpop
    · unfold Informer.handleDeltas
      rw [hpop]
  | some popped =>
    obtain ⟨j, ds, fifo⟩ := popped
    obtain ⟨rest, hqueue, hds, -⟩ := DeltaFIFO.pop_eq_some hpop
    have heq : inf.handleDeltas version syncing = { inf with
        fifo := fifo
        indexer := (processDeltas version syncing inf.indexer (inf.fifo.items j)).1
        pendingNotifications := inf.pendingNotifications ++
          (processDeltas version syncing inf.indexer (inf.fifo.items j)).2 } := by
      unfold Informer.handleDeltas
      rw [hpop, hds]
    refine Or.inr ⟨j, by simp [hqueue], fun k => ?_, fun k => ?_, ?_, ?_, ?_, ?_⟩
    · rw [heq]
      unfold Informer.pending
      dsimp only
      rw [DeltaFIFO.items_pop hpop]
      split_ifs with hk
      · rw [hk, List.nil_append]
      · rfl
    · rw [heq]
      exact find?_processDeltas (h.keyed j) inf.indexer k
    · rw [heq]
    · rw [heq]
    · rw [heq]
    · rw [heq]
      exact h.pop hpop

theorem Pops.mem_states {syncing : Bool} {inf' : Informer key} {j : K}
    (h : Pops version syncing inf inf' j) {o : α} (ho : o ∈ inf'.states k) :
    o ∈ inf.states k := by
  unfold states at ho ⊢
  rw [h.indexer, h.pending] at ho
  split_ifs at ho with hk
  · subst hk
    unfold Informer.pending
    rw [List.map_append, ← List.append_assoc]
    rcases List.mem_append.mp ho with ho | ho
    · rw [Option.mem_toList] at ho
      exact List.mem_append_left _ (mem_of_latest ho)
    · exact List.mem_append_right _ ho
  · exact ho

theorem Tracks.pops {syncing : Bool} {inf' : Informer key} {j : K}
    (h : inf.Tracks version P stored revision) (hp : Pops version syncing inf inf' j) :
    inf'.Tracks version P stored revision := by
  have hsplit := Feed.follows_append.mp (h.follows j)
  refine ⟨hp.valid, h.sound, fun k => ?_, fun hc k => ?_,
    fun k o ho => h.seen k o (hp.mem_states ho), fun hc => ?_⟩
  · rw [hp.indexer, hp.pending]
    split_ifs with hk
    · exact hsplit.2
    · exact h.follows k
  · have hlatest := h.latest (hp.connected ▸ hc) k
    rw [hp.indexer, hp.pending]
    split_ifs with hk
    · subst hk
      rw [← hlatest]
      exact (Feed.latest_append ..).symm
    · exact hlatest
  · rw [hp.wire]
    exact h.cut (hp.connected ▸ hc)

theorem Tracks.handleDeltas (h : inf.Tracks version P stored revision) (syncing : Bool) :
    (inf.handleDeltas version syncing).Tracks version P stored revision := by
  rcases handleDeltas_pops h.valid version syncing with ⟨-, heq⟩ | ⟨j, hp⟩
  · rw [heq]
    exact h
  · exact h.pops hp

/-- Nothing is on its way: the indexer is the store. -/
theorem Tracks.indexer_eq (h : inf.Tracks version P stored revision)
    (hc : inf.connected = true) (hwire : inf.wire = []) (hqueue : inf.fifo.queue = []) (k : K) :
    inf.indexer.find? k = stored.find? k := by
  have hitems : inf.fifo.items k = [] := by
    by_contra hne
    have := (h.valid.queued k).mpr hne
    rw [hqueue] at this
    cases this
  have hlatest := h.latest hc k
  unfold pending at hlatest
  rw [hitems, hwire] at hlatest
  exact hlatest

end Pending

end Informer
end FrpProvisioner
