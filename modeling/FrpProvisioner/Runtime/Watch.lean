import FrpProvisioner.Runtime.Tracking

/-! Runs of one informer beside a store that anyone writes to. The watch may be lost at any time
and is followed by a new list; the queue, the resyncs and the listener go on at their own pace. -/
namespace FrpProvisioner
open Effect
variable {α K : Type} [DecidableEq K] {key : α → K}

/-- The objects of a kind, the last version that was given out, and an informer. -/
structure Watched (key : α → K) where
  stored : Table key
  revision : ℕ
  informer : Informer key

namespace Watched

inductive Label (α K : Type) where
  | write
  | disconnect
  | relist
  | event
  | resync
  | pop (id : Option K)
  | deliver (n : Notification α)

inductive Step [DecidableEq α] (version : α → ℕ) :
    Watched key → Label α K → Watched key → Prop where
  | write {w : Watched key} {content : Table key} {revision : ℕ} :
      Informer.Advances version w.stored w.revision content revision →
      Step version w .write ⟨content, revision, w.informer.record w.stored content⟩
  | disconnect {w : Watched key} :
      Step version w .disconnect { w with informer := w.informer.disconnect }
  | relist {w : Watched key} :
      Step version w .relist { w with informer := w.informer.relist w.stored }
  | event {w : Watched key} : Step version w .event { w with informer := w.informer.watchHandler }
  | resync {w : Watched key} : Step version w .resync { w with informer := w.informer.resync }
  | pop {w : Watched key} (syncing : Bool) :
      Step version w (.pop w.informer.fifo.queue.head?)
        { w with informer := w.informer.handleDeltas version syncing }
  | deliver {w : Watched key} {n : Notification α} {rest : List (Notification α)} :
      w.informer.pendingNotifications = n :: rest →
      Step version w (.deliver n) { w with informer.pendingNotifications := rest }

end Watched

namespace Notification
variable {n : Notification α} {ns : List (Notification α)}

/-- The object the notification is about; an update is named by its new state. -/
def object : Notification α → α
  | .add newObj => newObj
  | .update _ newObj => newObj
  | .delete oldObj => oldObj

def result : Notification α → Option α
  | .add newObj => some newObj
  | .update _ newObj => some newObj
  | .delete _ => none

/-- The notification fits what the listener was told before. -/
def Fits (p : Option α) : Notification α → Prop
  | .add _ => p = none
  | .update oldObj _ => p = some oldObj
  | .delete oldObj => p = some oldObj

end Notification

section Told
variable {version : α → ℕ} {syncing : Bool}

theorem result_applyDelta (indexer : Table key) (d : Delta α) :
    (applyDelta indexer d).2.result = d.result ∧ (applyDelta indexer d).2.object = d.object := by
  obtain ⟨type, object, unknown⟩ := d
  cases type <;> simp only [applyDelta]
  all_goals first
    | exact ⟨rfl, rfl⟩
    | cases indexer.find? (key object) <;> exact ⟨rfl, rfl⟩

theorem fits_applyDelta {indexer : Table key} {d : Delta α}
    (h : Delta.Possible version (indexer.find? (key d.object)) d) :
    (applyDelta indexer d).2.Fits (indexer.find? (key d.object)) := by
  obtain ⟨type, object, unknown⟩ := d
  by_cases htype : type = .deleted
  · subst htype
    exact h.deleted rfl
  · cases hold : indexer.find? (key object) with
    | none => cases type <;> simp_all [applyDelta, Notification.Fits]
    | some old => cases type <;> simp_all [applyDelta, Notification.Fits]

/-- A notification that is kept back repeats the object. -/
theorem distribute_applyDelta (syncing : Bool) {indexer : Table key} {d : Delta α}
    (h : Delta.Possible version (indexer.find? (key d.object)) d) :
    distribute version syncing (applyDelta indexer d).2 = [(applyDelta indexer d).2] ∨
      distribute version syncing (applyDelta indexer d).2 = [] ∧
        d.result = indexer.find? (key d.object) := by
  cases hn : (applyDelta indexer d).2 with
  | add newObj => exact Or.inl rfl
  | delete oldObj => exact Or.inl rfl
  | update oldObj newObj =>
    have hfits := fits_applyDelta h
    obtain ⟨hresult, hobject⟩ := result_applyDelta indexer d
    rw [hn] at hfits hresult hobject
    have hold : indexer.find? (key d.object) = some oldObj := hfits
    have hnew : d.result = some newObj := hresult.symm
    simp only [distribute]
    split_ifs with hv
    · refine Or.inr ⟨rfl, ?_⟩
      have htype : d.type ≠ .deleted := by
        intro htype
        rw [Delta.result, if_pos htype] at hnew
        cases hnew
      have hobject : newObj = d.object := hobject
      rw [hobject] at hv
      rw [hnew, hold, hobject, h.version htype oldObj hold hv.1]
    · exact Or.inl rfl

/-- What a listener is told of the deltas of one object continues what it was told before. -/
theorem fits_processDeltas (syncing : Bool) {j : K} {ds : List (Delta α)}
    (hds : ∀ d ∈ ds, key d.object = j) {indexer : Table key}
    (h : Feed.Follows Delta.result (Delta.Possible version) (indexer.find? j) ds) :
    Feed.Follows Notification.result Notification.Fits (indexer.find? j)
        (processDeltas version syncing indexer ds).2 ∧
      Feed.latest Notification.result (indexer.find? j)
          (processDeltas version syncing indexer ds).2 =
        Feed.latest Delta.result (indexer.find? j) ds ∧
      ∀ n ∈ (processDeltas version syncing indexer ds).2, key n.object = j := by
  induction ds generalizing indexer with
  | nil => exact ⟨trivial, rfl, by simp [processDeltas]⟩
  | cons d ds ih =>
    have hd : key d.object = j := hds d List.mem_cons_self
    have hnext : (applyDelta indexer d).1.find? j = d.result := by
      rw [find?_applyDelta, hd, if_pos rfl]
    obtain ⟨hpossible, hrest⟩ := h
    rw [← hnext] at hrest
    obtain ⟨hfits, hlatest, hkeys⟩ := ih (fun e he => hds e (List.mem_cons_of_mem _ he)) hrest
    rw [hnext] at hfits hlatest
    subst hd
    obtain ⟨hresult, hobject⟩ := result_applyDelta indexer d
    unfold processDeltas
    dsimp only
    rw [Feed.latest_cons, ← hlatest]
    rcases distribute_applyDelta syncing hpossible with hkept | ⟨hkept, hsame⟩
    · rw [hkept, List.singleton_append, Feed.follows_cons, Feed.latest_cons, hresult]
      refine ⟨⟨fits_applyDelta hpossible, hfits⟩, rfl, fun n hn => ?_⟩
      rcases List.mem_cons.mp hn with rfl | hn
      · rw [hobject]
      · exact hkeys n hn
    · rw [hkept, List.nil_append, ← hsame]
      exact ⟨hfits, rfl, hkeys⟩

end Told

namespace Watched
variable [DecidableEq α] {version : α → ℕ} {w w' : Watched key} {stored : Table key} {revision : ℕ}
  {ls : List (Label α K)} {l : Label α K}

/-- The informer is made for a store that has given out the version `revision`. -/
abbrev Runs (version : α → ℕ) (stored : Table key) (revision : ℕ) (ls : List (Label α K))
    (w : Watched key) : Prop :=
  Trace (Step version) ⟨stored, revision, .new⟩ ls w

theorem tracks_step (h : w.informer.Tracks version (fun _ => True) w.stored w.revision)
    (hs : Step version w l w') :
    w'.informer.Tracks version (fun _ => True) w'.stored w'.revision := by
  cases hs with
  | write ha => exact h.record ha fun _ _ => trivial
  | disconnect => exact h.disconnect
  | relist => exact h.relist
  | event => exact h.watchHandler
  | resync => exact h.resync
  | pop syncing => exact h.handleDeltas syncing
  | deliver _ => exact ⟨h.valid, h.sound, h.follows, h.latest, h.seen, h.cut⟩

def told (ls : List (Label α K)) : List (Notification α) :=
  ls.filterMap fun
    | .deliver n => some n
    | _ => none

theorem Runs.tracks (h : Runs version stored revision ls w)
    (hsound : ∀ x ∈ stored, version x ≤ revision) :
    w.informer.Tracks version (fun _ => True) w.stored w.revision :=
  h.invariant (Informer.tracks_new fun x hx => ⟨trivial, hsound x hx⟩)
    fun _ _ _ hw hs => tracks_step hw hs

section Sample

/-- Objects that are a name and a version. -/
private def first : Table (Prod.fst : ℕ × ℕ → ℕ) := Table.empty.upsert (0, 1)

private def second : Table (Prod.fst : ℕ × ℕ → ℕ) := Table.empty.upsert (0, 2)

/-- An object is written while the watch is lost, and the next list makes up for it. -/
private theorem lost_and_listed : ∃ (ls : List (Label (ℕ × ℕ) ℕ)) (w : Watched Prod.fst),
    Runs Prod.snd first 1 ls w ∧ told ls = [.add (0, 1), .update (0, 1) (0, 2)] ∧
      w.stored = second ∧ w.informer.connected = true ∧ w.informer.wire = [] ∧
      w.informer.fifo.queue = [] ∧ w.informer.pendingNotifications = [] := by
  have h : Runs Prod.snd first 1 [] _ := .nil
  have h := Trace.snoc h .relist
  have h := Trace.snoc h (.pop false)
  have h := Trace.snoc h (.deliver (show _ = [_] from rfl))
  have h := Trace.snoc h .disconnect
  have hwrite : Informer.Advances Prod.snd first 1 second 2 := ⟨by decide, by decide⟩
  have h := Trace.snoc h (.write hwrite)
  have h := Trace.snoc h .relist
  have h := Trace.snoc h (.pop false)
  have h := Trace.snoc h (.deliver (show _ = [_] from rfl))
  exact ⟨_, _, h, rfl, rfl, rfl, rfl, rfl, rfl⟩

end Sample

/-- Whatever was lost on the way: once a list and all that follows it have arrived, the cache
holds what is stored. -/
theorem cache_eq_stored (h : Runs version stored revision ls w)
    (hsound : ∀ x ∈ stored, version x ≤ revision) (hconnected : w.informer.connected = true)
    (hwire : w.informer.wire = []) (hqueue : w.informer.fifo.queue = []) (k : K) :
    w.informer.indexer.find? k = w.stored.find? k :=
  (h.tracks hsound).indexer_eq hconnected hwire hqueue k

theorem cache_eq_stored_relisted : ∃ (ls : List (Label (ℕ × ℕ) ℕ)) (w : Watched Prod.fst),
    Runs Prod.snd first 1 ls w ∧ w.stored = second ∧
      w.informer.indexer.find? 0 = w.stored.find? 0 := by
  obtain ⟨ls, w, h, -, hstored, hconnected, hwire, hqueue, -⟩ := lost_and_listed
  exact ⟨ls, w, h, hstored, cache_eq_stored h (by decide) hconnected hwire hqueue 0⟩

/-- For every object the listener is told of its states one after the other, without a gap,
and ends up with what the cache holds. -/
theorem told_in_order (h : Runs version stored revision ls w)
    (hsound : ∀ x ∈ stored, version x ≤ revision) (k : K) :
    Feed.Follows Notification.result Notification.Fits none
        ((told ls ++ w.informer.pendingNotifications).filter fun n => key n.object = k) ∧
      Feed.latest Notification.result none
          ((told ls ++ w.informer.pendingNotifications).filter fun n => key n.object = k) =
        w.informer.indexer.find? k := by
  induction h with
  | nil => exact ⟨trivial, rfl⟩
  | @snoc ls t u l trace last ih =>
    have ht : Runs version stored revision ls t := trace
    -- only `pop` changes the indexer or adds a notification
    have hsame : ∀ inf' : Informer key, inf'.indexer = t.informer.indexer →
        told (ls ++ [l]) ++ inf'.pendingNotifications =
          told ls ++ t.informer.pendingNotifications →
        Feed.Follows Notification.result Notification.Fits none
            ((told (ls ++ [l]) ++ inf'.pendingNotifications).filter fun n => key n.object = k) ∧
          Feed.latest Notification.result none
              ((told (ls ++ [l]) ++ inf'.pendingNotifications).filter
                fun n => key n.object = k) = inf'.indexer.find? k := by
      intro inf' hindexer htold
      rw [hindexer, htold]
      exact ih
    cases last with
    | write ha => exact hsame _ (Informer.record_indexer _ _) (by simp [told])
    | disconnect => exact hsame _ rfl (by simp [told, Informer.disconnect])
    | relist => exact hsame _ rfl (by simp [told, Informer.relist])
    | event => exact hsame _ Informer.watchHandler_indexer (by simp [told])
    | resync => exact hsame _ rfl (by simp [told, Informer.resync])
    | pop syncing =>
      have htracks := ht.tracks hsound
      rcases Informer.handleDeltas_pops htracks.valid version syncing with ⟨-, heq⟩ | ⟨j, hp⟩
      · exact hsame _ (by rw [heq]) (by simp [told, heq])
      · have hfollows := (Feed.follows_append.mp (htracks.follows j)).1
        obtain ⟨hfits, hlatest, hkeys⟩ :=
          fits_processDeltas syncing (htracks.valid.keyed j) hfollows
        have htold : told (ls ++ [.pop t.informer.fifo.queue.head?]) = told ls := by simp [told]
        dsimp only
        rw [htold, hp.notifications, ← List.append_assoc, List.filter_append, hp.indexer,
          Feed.follows_append, Feed.latest_append, ih.2]
        by_cases hk : k = j
        · subst hk
          rw [if_pos rfl, List.filter_eq_self.mpr (fun n hn => decide_eq_true (hkeys n hn))]
          exact ⟨⟨ih.1, hfits⟩, hlatest⟩
        · have hother : (processDeltas version syncing t.informer.indexer
              (t.informer.fifo.items j)).2.filter (fun n => key n.object = k) = [] := by
            rw [List.filter_eq_nil_iff]
            intro n hn
            rw [hkeys n hn, decide_eq_true_eq]
            exact fun hjk => hk hjk.symm
          rw [if_neg hk, hother]
          exact ⟨⟨ih.1, trivial⟩, rfl⟩
    | @deliver n rest hpending =>
      refine hsame _ rfl ?_
      simp [told, hpending]

theorem told_in_order_relisted : ∃ (ls : List (Label (ℕ × ℕ) ℕ)) (w : Watched Prod.fst),
    Runs Prod.snd first 1 ls w ∧ told ls = [.add (0, 1), .update (0, 1) (0, 2)] ∧
      Feed.Follows Notification.result Notification.Fits none
        ((told ls ++ w.informer.pendingNotifications).filter fun n => n.object.1 = 0) := by
  obtain ⟨ls, w, h, htold, -⟩ := lost_and_listed
  exact ⟨ls, w, h, htold, (told_in_order h (by decide) 0).1⟩

/-- The keys of the first list that were not popped yet are the first of the queue, as many as
the count says. -/
structure Waiting (stored : Table key) (ls : List (Label α K)) (f : DeltaFIFO α K) : Prop where
  populated : f.populated = true
  first : ∃ waiting, waiting <+: f.queue ∧ waiting.length = f.initialPopulationCount ∧
    ∀ x ∈ stored, key x ∈ waiting ∨ Label.pop (some (key x)) ∈ ls

omit [DecidableEq K] [DecidableEq α] in
theorem Waiting.appends {f f' : DeltaFIFO α K} (h : Waiting stored ls f)
    (ha : DeltaFIFO.Appends f f') (l : Label α K) : Waiting stored (ls ++ [l]) f' := by
  obtain ⟨waiting, hprefix, hlength, hall⟩ := h.first
  refine ⟨ha.populated h.populated, waiting, hprefix.trans ha.queue,
    hlength.trans (ha.count h.populated).symm, fun x hx => ?_⟩
  exact (hall x hx).imp_right (List.mem_append_left _)

omit [DecidableEq α] in
theorem Waiting.pop {f f' : DeltaFIFO α K} {j : K} {ds : List (Delta α)}
    (h : Waiting stored ls f) (hpop : f.pop = some (j, ds, f')) :
    Waiting stored (ls ++ [.pop f.queue.head?]) f' := by
  obtain ⟨rest, hqueue, -, rfl⟩ := DeltaFIFO.pop_eq_some hpop
  obtain ⟨waiting, hprefix, hlength, hall⟩ := h.first
  rw [hqueue] at hprefix ⊢
  refine ⟨h.populated, waiting.tail, ?_, ?_, fun x hx => ?_⟩
  · cases waiting with
    | nil => exact List.nil_prefix
    | cons i waiting => exact (List.cons_prefix_cons.mp hprefix).2
  · rw [List.length_tail, hlength]
  · rcases hall x hx with hmem | hmem
    · cases waiting with
      | nil => cases hmem
      | cons i waiting =>
        obtain ⟨rfl, -⟩ := List.cons_prefix_cons.mp hprefix
        rcases List.mem_cons.mp hmem with hi | hmem
        · right
          simp [hi]
        · exact Or.inl hmem
    · exact Or.inr (List.mem_append_left _ hmem)

theorem Waiting.step (h : Waiting stored ls w.informer.fifo) (hs : Step version w l w') :
    Waiting stored (ls ++ [l]) w'.informer.fifo := by
  cases hs with
  | write ha =>
    dsimp only
    rw [Informer.record_fifo]
    exact h.appends (.refl _) _
  | disconnect => exact h.appends (.refl _) _
  | relist => exact h.appends (DeltaFIFO.appends_replace h.populated _ _) _
  | event =>
    refine h.appends ?_ _
    dsimp only
    unfold Informer.watchHandler Informer.queueEvent
    split
    · exact .refl _
    · dsimp only
      split
      · exact (DeltaFIFO.appends_populate _).trans (DeltaFIFO.appends_queueActionLocked _ _ _)
      · exact (DeltaFIFO.appends_populate _).trans (DeltaFIFO.appends_queueActionLocked _ _ _)
      · exact DeltaFIFO.appends_delete _ _ _
  | resync =>
    exact h.appends (.foldl (fun f _ => DeltaFIFO.appends_queueAbsent f _ _) _ _) _
  | pop syncing =>
    dsimp only
    unfold Informer.handleDeltas
    split
    next hpop => exact h.appends (.refl _) _
    next j ds f' hpop => exact h.pop hpop
  | deliver _ => exact h.appends (.refl _) _

/-- The informer reports that it has synced only when every object of its first list was
popped. -/
theorem popped_of_hasSynced
    (h : Trace (Step version) ⟨stored, revision, (Informer.new).relist stored⟩ ls w)
    (hs : w.informer.fifo.hasSynced = true) {x : α} (hx : x ∈ stored) :
    Label.pop (some (key x)) ∈ ls := by
  have hwaiting : Waiting stored ls w.informer.fifo := by
    clear hs hx
    induction h with
    | nil =>
      obtain ⟨hqueue, hpopulated, hcount⟩ := DeltaFIFO.replace_new stored
      refine ⟨hpopulated, stored.entries.map key, ?_, ?_, fun x hx => ?_⟩
      · rw [← hqueue]
        exact List.prefix_rfl
      · rw [List.length_map]
        exact hcount.symm
      · exact Or.inl (List.mem_map.mpr ⟨x, hx, rfl⟩)
    | snoc _ last ih => exact ih.step last
  obtain ⟨waiting, -, hlength, hall⟩ := hwaiting.first
  have hcount : w.informer.fifo.initialPopulationCount = 0 := by
    simp only [DeltaFIFO.hasSynced, Bool.and_eq_true, decide_eq_true_eq] at hs
    exact hs.2
  rw [hcount, List.length_eq_zero_iff] at hlength
  rcases hall x hx with hmem | hmem
  · rw [hlength] at hmem
    cases hmem
  · exact hmem

theorem popped_of_hasSynced_listed : ∃ (ls : List (Label (ℕ × ℕ) ℕ)) (w : Watched Prod.fst),
    Trace (Step Prod.snd) ⟨first, 1, Informer.new.relist first⟩ ls w ∧
      w.informer.fifo.hasSynced = true ∧ Label.pop (some 0) ∈ ls := by
  have h : Trace (Step Prod.snd) ⟨first, 1, Informer.new.relist first⟩ [] _ := .nil
  have h := Trace.snoc h (.pop false)
  exact ⟨_, _, h, rfl, popped_of_hasSynced h rfl (x := (0, 1)) (by decide)⟩

end Watched
end FrpProvisioner
