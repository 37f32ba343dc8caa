import FrpProvisioner.Runtime.Tracking

/-! What an informer still has to tell its listener. A change of an object that `c` holds of,
before or after, is owed from the write on until the listener has been told of it; when nothing
is owed, the indexer agrees with the store on all such objects. -/
namespace FrpProvisioner
open Effect
variable {α K : Type} [DecidableEq K] {key : α → K}

section Deltas
variable {version : α → ℕ} {syncing : Bool} {p : Option α} {ds : List (Delta α)}

/-- Deltas that change nothing repeat the object. -/
theorem object_of_not_stirs (hf : Feed.Follows Delta.result (Delta.Possible version) p ds)
    (h : ¬ Feed.Stirs Delta.result p ds) : ∀ d ∈ ds, p = some d.object := by
  induction ds with
  | nil => simp
  | cons d ds ih =>
    have hd : d.result = p := by_contra fun hne => h ⟨d, List.mem_cons_self, hne⟩
    obtain ⟨hpossible, hrest⟩ := hf
    have htype : d.type ≠ .deleted := by
      intro htype
      rw [hpossible.deleted htype, Delta.result, if_pos htype] at hd
      cases hd
    intro e he
    rcases List.mem_cons.mp he with rfl | he
    · rw [← hd, Delta.result_of_ne htype]
    · rw [hd] at hrest
      refine ih hrest ?_ e he
      rintro ⟨x, hx, hne⟩
      exact h ⟨x, List.mem_cons_of_mem _ hx, hne⟩

/-- The listener is told of a change with the object before and after it. -/
theorem mem_distribute_applyDelta {indexer : Table key} {d : Delta α}
    (hp : Delta.Possible version (indexer.find? (key d.object)) d)
    (hne : d.result ≠ indexer.find? (key d.object)) {o : α}
    (ho : o ∈ (indexer.find? (key d.object)).toList ++ [d.object]) :
    ∃ n ∈ distribute version syncing (applyDelta indexer d).2, o ∈ n.objects := by
  obtain ⟨type, object, unknown⟩ := d
  by_cases htype : type = .deleted
  · subst htype
    have hthere := hp.deleted rfl
    simp only [hthere, Option.toList_some, List.cons_append, List.nil_append, List.mem_cons,
      List.not_mem_nil, or_false, or_self] at ho
    exact ⟨.delete object, by simp [applyDelta, distribute], by simp [Notification.objects, ho]⟩
  · cases hold : indexer.find? (key object) with
    | none =>
      rw [hold] at ho
      refine ⟨.add object, ?_, by simpa [Notification.objects] using ho⟩
      cases type <;> simp_all [applyDelta, distribute]
    | some old =>
      rw [hold] at ho
      have hversion : version old ≠ version object := by
        intro hv
        refine hne ?_
        rw [Delta.result_of_ne htype, hold, hp.version htype old hold hv]
      refine ⟨.update old object, ?_, by simpa [Notification.objects] using ho⟩
      cases type <;> simp_all [applyDelta, distribute]

/-- The listener is told of every state of an object that changes. -/
theorem notified {j : K} {indexer : Table key} (hds : ∀ d ∈ ds, key d.object = j)
    (hf : Feed.Follows Delta.result (Delta.Possible version) (indexer.find? j) ds)
    (hs : Feed.Stirs Delta.result (indexer.find? j) ds) {o : α}
    (ho : o ∈ (indexer.find? j).toList ++ ds.map Delta.object) :
    ∃ n ∈ (processDeltas version syncing indexer ds).2, o ∈ n.objects := by
  induction ds generalizing indexer with
  | nil => exact absurd hs Feed.not_stirs_nil
  | cons d ds ih =>
    have hd : key d.object = j := hds d List.mem_cons_self
    have hrest : ∀ e ∈ ds, key e.object = j := fun e he => hds e (List.mem_cons_of_mem _ he)
    have hnext : (applyDelta indexer d).1.find? j = d.result := by
      rw [find?_applyDelta, hd, if_pos rfl]
    obtain ⟨hpossible, hf⟩ := hf
    rw [← hnext] at hf
    have hlater : Feed.Stirs Delta.result d.result ds → o ∈ d.result.toList ++ ds.map Delta.object →
        ∃ n ∈ (processDeltas version syncing indexer (d :: ds)).2, o ∈ n.objects := by
      intro hs ho
      rw [← hnext] at hs ho
      obtain ⟨n, hn, hon⟩ := ih hrest hf hs ho
      exact ⟨n, List.mem_append_right _ hn, hon⟩
    by_cases hr : d.result = indexer.find? j
    · -- the delta repeats the object, which a later one changes
      have hsame : indexer.find? j = some d.object := by
        by_cases htype : d.type = .deleted
        · exact hpossible.deleted htype
        · rw [← hr, Delta.result_of_ne htype]
      refine hlater ?_ ?_
      · rw [hr]
        obtain ⟨e, he, hne⟩ := hs
        rcases List.mem_cons.mp he with rfl | he
        · exact absurd hr hne
        · exact ⟨e, he, hne⟩
      · rw [hr, hsame]
        rw [hsame] at ho
        simpa using ho
    · have hnow : o ∈ (indexer.find? j).toList ++ [d.object] →
          ∃ n ∈ (processDeltas version syncing indexer (d :: ds)).2, o ∈ n.objects := by
        intro ho
        subst hd
        obtain ⟨n, hn, hon⟩ := mem_distribute_applyDelta hpossible hr ho
        exact ⟨n, List.mem_append_left _ hn, hon⟩
      rw [List.map_cons, List.append_cons, List.mem_append] at ho
      rcases ho with ho | ho
      · exact hnow ho
      · by_cases hs' : Feed.Stirs Delta.result d.result ds
        · exact hlater hs' (List.mem_append_right _ ho)
        · obtain ⟨e, he, rfl⟩ := List.mem_map.mp ho
          rw [hnext] at hf
          have hobject := object_of_not_stirs hf hs' e he
          have htype : d.type ≠ .deleted := by
            intro htype
            rw [Delta.result, if_pos htype] at hobject
            cases hobject
          rw [Delta.result_of_ne htype, Option.some.injEq] at hobject
          exact hnow (by simp [hobject])

/-- Both states of an update are states of one object. -/
def Notification.Keyed (key : α → K) : Notification α → Prop
  | .update oldObj newObj => key oldObj = key newObj
  | _ => True

theorem keyed_applyDelta (indexer : Table key) (d : Delta α) :
    (applyDelta indexer d).2.Keyed key := by
  obtain ⟨type, object, unknown⟩ := d
  cases hold : indexer.find? (key object) with
  | none => cases type <;> simp [applyDelta, hold, Notification.Keyed]
  | some old =>
    have hkey := (Table.find?_eq_some.mp hold).2
    cases type <;> simp [applyDelta, hold, Notification.Keyed, hkey]

theorem keyed_processDeltas (version : α → ℕ) (syncing : Bool) (ds : List (Delta α))
    (indexer : Table key) :
    ∀ n ∈ (processDeltas version syncing indexer ds).2, n.Keyed key := by
  induction ds generalizing indexer with
  | nil => simp [processDeltas]
  | cons d ds ih =>
    intro n hn
    rcases List.mem_append.mp hn with hn | hn
    · rw [eq_of_mem_distribute hn]
      exact keyed_applyDelta indexer d
    · exact ih _ n hn

end Deltas

namespace Informer
variable {version : α → ℕ} {P c : α → Prop} {stored content : Table key}
  {revision revision' : ℕ} {inf inf' : Informer key}

/-- A change of an object of which `c` holds is on its way to the listener. -/
def Owed (c : α → Prop) (inf : Informer key) : Prop :=
  (∃ k, Feed.Stirs Delta.result (inf.indexer.find? k) (inf.pending k) ∧ ∃ o ∈ inf.states k, c o) ∨
    ∃ n ∈ inf.pendingNotifications, ∃ o ∈ n.objects, c o

structure Drained (inf : Informer key) : Prop where
  wire : inf.wire = []
  queue : inf.fifo.queue = []
  notifications : inf.pendingNotifications = []

theorem Tracks.not_owed (h : inf.Tracks version P stored revision) (hd : inf.Drained) :
    ¬ inf.Owed c := by
  rintro (⟨k, hs, -⟩ | ⟨n, hn, -⟩)
  · have hitems : inf.fifo.items k = [] := by
      by_contra hne
      have hqueued := (h.valid.queued k).mpr hne
      rw [hd.queue] at hqueued
      cases hqueued
    rw [pending, hitems, hd.wire] at hs
    exact Feed.not_stirs_nil hs
  · rw [hd.notifications] at hn
    cases hn

/-- Everything that is listed at first is owed. -/
theorem owed_relist {x : α} (hx : x ∈ stored) (hc : c x) :
    ((new : Informer key).relist stored).Owed c := by
  have hpending : ((new : Informer key).relist stored).pending (key x) =
      [⟨.replaced, x, false⟩] := by
    rw [pending_relist DeltaFIFO.valid_new, Table.find?_of_mem hx]
    rfl
  refine Or.inl ⟨key x, ?_, x, ?_, hc⟩
  · rw [hpending]
    exact ⟨_, List.mem_singleton.mpr rfl, fun hnone => by cases hnone⟩
  · rw [states, hpending]
    simp

/-- Neither the store nor the indexer changes on the objects of which `c` holds. -/
structure Keeps (c : α → Prop) (stored : Table key) (inf : Informer key) (content : Table key)
    (inf' : Informer key) : Prop where
  stored : ∀ o, c o → (o ∈ content ↔ o ∈ stored)
  indexer : ∀ o, c o → (o ∈ inf'.indexer ↔ o ∈ inf.indexer)

/-- When nothing is owed, the indexer is the store. -/
theorem Tracks.synced (h : inf.Tracks version P stored revision) (hc : inf.connected = true)
    (hn : ¬ inf.Owed c) {o : α} (ho : c o) : o ∈ inf.indexer ↔ o ∈ stored := by
  have hsame : o ∈ inf.states (key o) →
      inf.indexer.find? (key o) = stored.find? (key o) := by
    intro hstate
    have hstirs : ¬ Feed.Stirs Delta.result (inf.indexer.find? (key o)) (inf.pending (key o)) :=
      fun hs => hn (Or.inl ⟨key o, hs, o, hstate, ho⟩)
    rw [← h.latest hc (key o), Feed.latest_of_not_stirs hstirs]
  constructor
  · intro hmem
    have hfind := Table.find?_of_mem hmem
    rw [hsame (by simp [states, hfind])] at hfind
    exact (Table.find?_eq_some.mp hfind).1
  · intro hmem
    have hfind := Table.find?_of_mem hmem
    rw [← hsame (mem_of_latest (by rw [h.latest hc, hfind]))] at hfind
    exact (Table.find?_eq_some.mp hfind).1

theorem Tracks.owed_record [DecidableEq α] (h : inf.Tracks version P stored revision)
    (hc : inf.connected = true) :
    (inf.record stored content).Owed c ∨
      ¬ inf.Owed c ∧ Keeps c stored inf content (inf.record stored content) := by
  by_cases howed : (inf.record stored content).Owed c
  · exact Or.inl howed
  refine Or.inr ⟨?_, fun o ho => ?_, fun o _ => by rw [record_indexer]⟩
  · rintro (⟨k, hs, o, hstate, ho⟩ | hn)
    · refine howed (Or.inl ⟨k, ?_, o, ?_, ho⟩)
      · rw [record_indexer, pending_record hc, Feed.stirs_append]
        exact Or.inl hs
      · rw [states, record_indexer, pending_record hc, List.map_append, ← List.append_assoc]
        exact List.mem_append_left _ hstate
    · refine howed (Or.inr ?_)
      rw [record_notifications]
      exact hn
  · -- a change of the object would be owed
    have hsame : stored.find? (key o) = some o ∨ content.find? (key o) = some o →
        content.find? (key o) = stored.find? (key o) := by
      intro hmem
      by_contra hne
      obtain ⟨e, hchange, hresult, hobject⟩ := changeOf_of_ne hne
      have hpending : (inf.record stored content).pending (key o) =
          inf.pending (key o) ++ [e.delta] := by
        rw [pending_record hc, hchange, List.map_singleton]
      refine howed (Or.inl ⟨key o, ?_, o, ?_, ho⟩)
      · rw [record_indexer, hpending]
        refine Feed.stirs_snoc ?_
        rw [hresult, h.latest hc]
        exact hne
      · rw [states, record_indexer, hpending, List.map_append, ← List.append_assoc]
        rcases hmem with hmem | hmem
        · exact List.mem_append_left _ (mem_of_latest (by rw [h.latest hc, hmem]))
        · exact List.mem_append_right _ (by simp [hobject o hmem])
    constructor
    · intro hmem
      have hfind := Table.find?_of_mem hmem
      rw [hsame (Or.inr hfind)] at hfind
      exact (Table.find?_eq_some.mp hfind).1
    · intro hmem
      have hfind := Table.find?_of_mem hmem
      rw [← hsame (Or.inl hfind)] at hfind
      exact (Table.find?_eq_some.mp hfind).1

/-- Moving an event into the queue owes nothing new. -/
theorem Tracks.owed_watchHandler (h : inf.Tracks version P stored revision) :
    inf.watchHandler.Owed c ∨ ¬ inf.Owed c ∧ Keeps c stored inf stored inf.watchHandler := by
  have howed : inf.watchHandler.Owed c ↔ inf.Owed c := by
    simp only [Owed, states, watchHandler_indexer, watchHandler_notifications,
      h.pending_watchHandler]
  rw [howed]
  refine (em (inf.Owed c)).imp_right fun hn => ⟨hn, fun _ _ => Iff.rfl, fun o _ => ?_⟩
  rw [watchHandler_indexer]

theorem owed_resync : inf.resync.Owed c ∨ ¬ inf.Owed c ∧ Keeps c stored inf stored inf.resync := by
  by_cases hn : inf.Owed c
  · left
    rcases hn with ⟨k, hs, o, ho, hco⟩ | hn
    · refine Or.inl ⟨k, ?_, o, ?_, hco⟩
      · rw [pending_resync]
        split_ifs
        · exact Feed.stirs_append.mpr (Or.inr hs)
        · exact hs
      · rw [states, pending_resync]
        split_ifs
        · rw [List.map_append, List.mem_append, List.mem_append]
          rcases List.mem_append.mp ho with ho | ho
          · exact Or.inl ho
          · exact Or.inr (Or.inr ho)
        · exact ho
    · exact Or.inr hn
  · exact Or.inr ⟨hn, fun _ _ => Iff.rfl, fun _ _ => Iff.rfl⟩

/-- What was owed of the popped object is told, or is owed still. -/
theorem Pops.owed_of_stirs {syncing : Bool} {j : K} (hp : Pops version syncing inf inf' j)
    (hqueued : Feed.Follows Delta.result (Delta.Possible version) (inf.indexer.find? j)
      (inf.fifo.items j))
    (hwired : Feed.Follows Delta.result (Delta.Possible version)
      (Feed.latest Delta.result (inf.indexer.find? j) (inf.fifo.items j))
      ((inf.wire.filter fun e => key e.object = j).map WatchEvent.delta))
    (hs : Feed.Stirs Delta.result (inf.indexer.find? j) (inf.pending j)) {o : α}
    (ho : o ∈ inf.states j) (hco : c o)
    (htold : Feed.Stirs Delta.result (inf.indexer.find? j) (inf.fifo.items j) →
      o ∈ (inf.indexer.find? j).toList ++ (inf.fifo.items j).map Delta.object → inf'.Owed c) :
    inf'.Owed c := by
  have hlater : Feed.Stirs Delta.result
        (Feed.latest Delta.result (inf.indexer.find? j) (inf.fifo.items j))
        ((inf.wire.filter fun e => key e.object = j).map WatchEvent.delta) →
      o ∈ (Feed.latest Delta.result (inf.indexer.find? j) (inf.fifo.items j)).toList ++
        ((inf.wire.filter fun e => key e.object = j).map WatchEvent.delta).map Delta.object →
      inf'.Owed c := by
    intro hs ho
    refine Or.inl ⟨j, ?_, o, ?_, hco⟩
    · rw [hp.indexer, hp.pending, if_pos rfl, if_pos rfl]
      exact hs
    · rw [states, hp.indexer, hp.pending, if_pos rfl, if_pos rfl]
      exact ho
  unfold states Informer.pending at ho
  rw [List.map_append, ← List.append_assoc, List.mem_append] at ho
  by_cases hF : Feed.Stirs Delta.result (inf.indexer.find? j) (inf.fifo.items j)
  · rcases ho with ho | ho
    · exact htold hF ho
    · by_cases hW : Feed.Stirs Delta.result
          (Feed.latest Delta.result (inf.indexer.find? j) (inf.fifo.items j))
          ((inf.wire.filter fun e => key e.object = j).map WatchEvent.delta)
      · exact hlater hW (List.mem_append_right _ ho)
      · obtain ⟨d, hd, rfl⟩ := List.mem_map.mp ho
        exact htold hF (mem_of_latest (object_of_not_stirs hwired hW d hd))
  · -- what is queued repeats the object, and a change comes from the watch
    have hW := (Feed.stirs_append.mp hs).resolve_left hF
    rw [Feed.latest_of_not_stirs hF] at hlater
    refine hlater hW (List.mem_append.mpr ?_)
    rcases ho with ho | ho
    · rcases List.mem_append.mp ho with ho | ho
      · exact Or.inl ho
      · obtain ⟨d, hd, rfl⟩ := List.mem_map.mp ho
        exact Or.inl (by simp [object_of_not_stirs hqueued hF d hd])
    · exact Or.inr ho

/-- What is popped changes the indexer and is told to the listener. -/
theorem Tracks.owed_pops {syncing : Bool} {j : K} (h : inf.Tracks version P stored revision)
    (hp : Pops version syncing inf inf' j) :
    inf'.Owed c ∨ ¬ inf.Owed c ∧ Keeps c stored inf stored inf' := by
  obtain ⟨hqueued, hwired⟩ := Feed.follows_append.mp (h.follows j)
  have htold : Feed.Stirs Delta.result (inf.indexer.find? j) (inf.fifo.items j) → ∀ o,
      o ∈ (inf.indexer.find? j).toList ++ (inf.fifo.items j).map Delta.object → c o →
      inf'.Owed c := by
    intro hs o ho hco
    obtain ⟨n, hn, hon⟩ := notified (h.valid.keyed j) hqueued hs ho
    refine Or.inr ⟨n, ?_, o, hon, hco⟩
    rw [hp.notifications]
    exact List.mem_append_right _ hn
  by_cases howed : inf'.Owed c
  · exact Or.inl howed
  refine Or.inr ⟨?_, fun _ _ => Iff.rfl, fun o ho => ?_⟩
  · rintro (⟨k, hs, o, ho, hco⟩ | ⟨n, hn, hon⟩)
    · by_cases hk : k = j
      · subst hk
        exact howed (hp.owed_of_stirs hqueued hwired hs ho hco (fun hs ho => htold hs o ho hco))
      · refine howed (Or.inl ⟨k, ?_, o, ?_, hco⟩)
        · rw [hp.indexer, hp.pending, if_neg hk, if_neg hk]
          exact hs
        · rw [states, hp.indexer, hp.pending, if_neg hk, if_neg hk]
          exact ho
    · refine howed (Or.inr ⟨n, ?_, hon⟩)
      rw [hp.notifications]
      exact List.mem_append_left _ hn
  · have hsame : inf.indexer.find? (key o) = some o ∨ inf'.indexer.find? (key o) = some o →
        inf'.indexer.find? (key o) = inf.indexer.find? (key o) := by
      intro hmem
      rw [hp.indexer] at hmem ⊢
      split_ifs at hmem ⊢ with hk
      · rw [hk] at hmem ⊢
        refine Feed.latest_of_not_stirs fun hs => howed (htold hs o ?_ ho)
        rcases hmem with hmem | hmem
        · simp [hmem]
        · exact mem_of_latest hmem
      · rfl
    constructor
    · intro hmem
      have hfind := Table.find?_of_mem hmem
      rw [hsame (Or.inr hfind)] at hfind
      exact (Table.find?_eq_some.mp hfind).1
    · intro hmem
      have hfind := Table.find?_of_mem hmem
      rw [← hsame (Or.inl hfind)] at hfind
      exact (Table.find?_eq_some.mp hfind).1

theorem Tracks.owed_handleDeltas (h : inf.Tracks version P stored revision) (syncing : Bool) :
    (inf.handleDeltas version syncing).Owed c ∨
      ¬ inf.Owed c ∧ Keeps c stored inf stored (inf.handleDeltas version syncing) := by
  rcases handleDeltas_pops h.valid version syncing with ⟨-, heq⟩ | ⟨j, hp⟩
  · rw [heq]
    exact (em (inf.Owed c)).imp_right fun hn => ⟨hn, fun _ _ => Iff.rfl, fun _ _ => Iff.rfl⟩
  · exact h.owed_pops hp

/-- What the listener is told names one object at a time. -/
def Keyed (inf : Informer key) : Prop := ∀ n ∈ inf.pendingNotifications, n.Keyed key

theorem Keyed.handleDeltas (h : inf.Keyed) (version : α → ℕ) (syncing : Bool) :
    (inf.handleDeltas version syncing).Keyed := by
  unfold Informer.handleDeltas
  split
  · exact h
  · intro n hn
    rcases List.mem_append.mp hn with hn | hn
    · exact h n hn
    · exact keyed_processDeltas version syncing _ _ n hn

/-- Telling the listener settles what was owed, for the keys the handler adds. -/
theorem owed_deliver {n : Notification α} {rest : List (Notification α)}
    (hn : inf.pendingNotifications = n :: rest) :
    ({ inf with pendingNotifications := rest } : Informer key).Owed c ∨ (∃ o ∈ n.objects, c o) ∨
      ¬ inf.Owed c ∧ Keeps c stored inf stored { inf with pendingNotifications := rest } := by
  by_cases hold : inf.Owed c
  · rcases hold with hold | ⟨m, hm, ho⟩
    · exact Or.inl (Or.inl hold)
    · rw [hn, List.mem_cons] at hm
      rcases hm with rfl | hm
      · exact Or.inr (Or.inl ho)
      · exact Or.inl (Or.inr ⟨m, hm, ho⟩)
  · exact Or.inr (Or.inr ⟨hold, fun _ _ => Iff.rfl, fun _ _ => Iff.rfl⟩)

/-- What an informer does by itself; the keys that its handler adds go to the work queue. -/
inductive Moves {κ : Type} (version : α → ℕ) (handle : Notification α → List κ) :
    Informer key → List κ → Informer key → Prop where
  | event {inf : Informer key} : Moves version handle inf [] inf.watchHandler
  | resync {inf : Informer key} : Moves version handle inf [] inf.resync
  | pop {inf : Informer key} (syncing : Bool) :
      Moves version handle inf [] (inf.handleDeltas version syncing)
  | deliver {inf : Informer key} {n : Notification α} {rest : List (Notification α)} :
      inf.pendingNotifications = n :: rest →
      Moves version handle inf (handle n) { inf with pendingNotifications := rest }

/-- The informer has not lost its watch. -/
structure Live (version : α → ℕ) (P : α → Prop) (stored : Table key) (revision : ℕ)
    (inf : Informer key) : Prop extends inf.Tracks version P stored revision where
  connected : inf.connected = true
  keyed : inf.Keyed

theorem Live.record [DecidableEq α] (h : inf.Live version P stored revision)
    (ha : Advances version stored revision content revision') (hP : ∀ y ∈ content, P y) :
    (inf.record stored content).Live version P content revision' where
  toTracks := h.toTracks.record ha hP
  connected := by rw [record_connected, h.connected]
  keyed := by
    unfold Keyed
    rw [record_notifications]
    exact h.keyed

theorem live_relist (h : ∀ x ∈ stored, P x ∧ version x ≤ revision) :
    ((new : Informer key).relist stored).Live version P stored revision where
  toTracks := (tracks_new h).relist
  connected := rfl
  keyed n hn := by cases hn

section Moves
variable {κ : Type} {handle : Notification α → List κ} {added : List κ} {k : κ}

theorem Live.moves (h : inf.Live version P stored revision)
    (hm : Moves version handle inf added inf') : inf'.Live version P stored revision := by
  cases hm with
  | event =>
    refine ⟨h.toTracks.watchHandler, ?_, ?_⟩
    · rw [watchHandler_connected, h.connected]
    · unfold Keyed
      rw [watchHandler_notifications]
      exact h.keyed
  | resync => exact ⟨h.toTracks.resync, h.connected, h.keyed⟩
  | pop syncing =>
    refine ⟨h.toTracks.handleDeltas syncing, ?_, h.keyed.handleDeltas version syncing⟩
    rw [handleDeltas_connected, h.connected]
  | deliver hn =>
    refine ⟨⟨h.valid, h.sound, h.follows, h.latest, h.seen, h.cut⟩, h.connected, fun m hm => ?_⟩
    refine h.keyed m ?_
    rw [hn]
    exact List.mem_cons_of_mem _ hm

/-- What is owed stays owed until the handler adds the key. -/
theorem Live.owed_moves (h : inf.Live version P stored revision)
    (hm : Moves version handle inf added inf')
    (hadds : ∀ n, n.Keyed key → ∀ o ∈ n.objects, c o → k ∈ handle n) :
    inf'.Owed c ∨ k ∈ added ∨ ¬ inf.Owed c ∧ Keeps c stored inf stored inf' := by
  cases hm with
  | event => exact h.toTracks.owed_watchHandler.imp_right Or.inr
  | resync => exact owed_resync.imp_right Or.inr
  | pop syncing => exact (h.toTracks.owed_handleDeltas syncing).imp_right Or.inr
  | @deliver n rest hn =>
    rcases owed_deliver hn with howed | ⟨o, ho, hc⟩ | hkeeps
    · exact Or.inl howed
    · have hkeyed : n.Keyed key := h.keyed n (by simp [hn])
      exact Or.inr (Or.inl (hadds n hkeyed o ho hc))
    · exact Or.inr (Or.inr hkeeps)

end Moves

end Informer
end FrpProvisioner
