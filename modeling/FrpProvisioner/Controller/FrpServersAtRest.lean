import FrpProvisioner.Controller.StatusHistory
import FrpProvisioner.Runtime.Handlers
import FrpProvisioner.Runtime.Watching

/-! The FrpServer controller as `SetupWithManager` builds it, and what it has achieved when it is
at rest. A failed health check is an error of the run, so the key is tried again; a run after
which it is not has found a status that already says what the check has found. -/
namespace FrpProvisioner
open Effect FrpServerReconciler

/-- The stored `FrpServer`s, the informer of the kind, and the health checks so far, each with
the object that was checked. -/
structure FrpServerWorld where
  store : FrpServers
  informer : Informer (Object.key : FrpServer → NamespacedName)
  checks : List (FrpServer × Option GoError)

namespace FrpServerWorld

/-- The watch reports what a write has changed. -/
def write (w : FrpServerWorld) (s : FrpServers) : FrpServerWorld :=
  { w with store := s, informer := w.informer.record w.store.servers s.servers }

/-- `CacheReader.Get` knows no error but NotFound; every update may fail. -/
def serve : Server ServerRequest ServerResponse FrpServerWorld
  | w, .get key, .ok obj, w' => w.informer.indexer.find? key = some obj ∧ w' = w
  | w, .get key, .error err, w' =>
      w.informer.indexer.find? key = none ∧ err.isNotFound = true ∧ w' = w
  | w, .validateFrpServerConfig obj, check, w' => w' = { w with checks := (obj, check) :: w.checks }
  | w, .now, _, w' => w' = w
  | w, .updateStatus obj, o, w' => ∃ s, w.store.serve (.updateStatus obj) o s ∧ w' = w.write s

/-- What happens beside the workers: anyone writes, and the informer goes on. -/
inductive Env : FrpServerWorld → List NamespacedName → FrpServerWorld → Prop where
  | write {w : FrpServerWorld} {s : FrpServers} :
      Informer.Advances Object.version w.store.servers w.store.revision s.servers s.revision →
      Env w [] (w.write s)
  | informer {w : FrpServerWorld} {added : List NamespacedName}
      {inf : Informer (Object.key : FrpServer → NamespacedName)} :
      Informer.Moves Object.version enqueueRequestForObject w.informer added inf →
      Env w added { w with informer := inf }

abbrev Good (w : FrpServerWorld) : Prop :=
  w.informer.Live Object.version (fun _ => True) w.store.servers w.store.revision

/-- A change of the `FrpServer` is on its way to the handler. -/
abbrev Owed (k : NamespacedName) (w : FrpServerWorld) : Prop :=
  w.informer.Owed fun obj => obj.key = k

/-- The `FrpServer` does not change, in the store and in the cache. -/
structure Keeps (k : NamespacedName) (w w' : FrpServerWorld) : Prop where
  servers : Informer.Keeps (fun obj : FrpServer => obj.key = k) w.store.servers w.informer
    w'.store.servers w'.informer
  checks : ∀ check ∈ w.checks, check ∈ w'.checks

variable {w w' : FrpServerWorld} {s s' : FrpServers} {k : NamespacedName}
  {added : List NamespacedName} {obj : FrpServer}

theorem Keeps.refl (k : NamespacedName) (w : FrpServerWorld) : Keeps k w w :=
  ⟨⟨fun _ _ => Iff.rfl, fun _ _ => Iff.rfl⟩, fun _ hc => hc⟩

theorem Good.write (h : Good w) (ha : Informer.Advances Object.version w.store.servers
    w.store.revision s.servers s.revision) : Good (w.write s) :=
  Informer.Live.record h ha fun _ _ => trivial

theorem Good.owed_write (h : Good w) (s : FrpServers) (k : NamespacedName) :
    Owed k (w.write s) ∨ (¬ Owed k w ∧ Keeps k w (w.write s)) := by
  rcases Informer.Tracks.owed_record h.toTracks h.connected with howed | ⟨hnot, hkeeps⟩
  · exact Or.inl howed
  · exact Or.inr ⟨hnot, hkeeps, fun _ hc => hc⟩

theorem Good.env (h : Good w) (he : Env w added w') : Good w' := by
  cases he with
  | write ha => exact h.write ha
  | informer hm => exact Informer.Live.moves h hm

theorem Good.owed_env (h : Good w) (he : Env w added w') (k : NamespacedName) :
    Owed k w' ∨ k ∈ added ∨ (¬ Owed k w ∧ Keeps k w w') := by
  cases he with
  | write ha => exact (h.owed_write _ k).imp_right Or.inr
  | informer hm =>
    have hadds : ∀ n : Notification FrpServer, n.Keyed Object.key → ∀ o ∈ n.objects, o.key = k →
        k ∈ enqueueRequestForObject n := by
      intro n hn o ho hk
      exact hk ▸ mem_enqueueRequestForObject hn ho
    rcases Informer.Live.owed_moves h hm hadds with howed | hadded | ⟨hnot, hkeeps⟩
    · exact Or.inl howed
    · exact Or.inr (Or.inl hadded)
    · exact Or.inr (Or.inr ⟨hnot, hkeeps, fun _ hc => hc⟩)

theorem advances_put (s : FrpServers) (cur new : FrpServer) :
    Informer.Advances Object.version s.servers s.revision (s.put cur new).2.servers
      (s.put cur new).2.revision := by
  rcases s.put_cases cur new with ⟨-, hput⟩ | ⟨stored, rfl, hput⟩
  · rw [hput]
    exact ⟨le_rfl, fun _ hy => Or.inl hy⟩
  · rw [hput]
    refine ⟨Nat.le_succ _, fun y hy => ?_⟩
    rcases Table.mem_replace.mp hy with ⟨rfl, -⟩ | ⟨hy, -⟩
    · exact Or.inr ⟨Nat.lt_succ_self _, le_rfl⟩
    · exact Or.inl hy

section Serve
variable {i : ServerRequest} {o : ServerResponse i}

theorem advances_updateStatus {o : Except GoError FrpServer}
    (h : s.serve (.updateStatus obj) o s') :
    Informer.Advances Object.version s.servers s.revision s'.servers s'.revision := by
  cases o with
  | error err =>
    obtain rfl : s' = s := h
    exact ⟨le_rfl, fun _ hy => Or.inl hy⟩
  | ok stored =>
    obtain ⟨cur, -, -, heq⟩ := h
    obtain rfl : s' = _ := congrArg Prod.snd heq
    exact advances_put s cur _

/-- A request writes to the store or adds to the checks. -/
theorem serve_cases (h : serve w i o w') :
    (∃ s, Informer.Advances Object.version w.store.servers w.store.revision s.servers s.revision ∧
      w' = w.write s) ∨
    (w'.store = w.store ∧ w'.informer = w.informer ∧ ∀ check ∈ w.checks, check ∈ w'.checks) := by
  cases i with
  | get key =>
    right
    cases o with
    | ok obj =>
      obtain rfl : w' = w := h.2
      exact ⟨rfl, rfl, fun _ hc => hc⟩
    | error err =>
      obtain rfl : w' = w := h.2.2
      exact ⟨rfl, rfl, fun _ hc => hc⟩
  | validateFrpServerConfig obj =>
    right
    obtain rfl : w' = { w with checks := (obj, o) :: w.checks } := h
    exact ⟨rfl, rfl, fun _ hc => List.mem_cons_of_mem _ hc⟩
  | now =>
    right
    obtain rfl : w' = w := h
    exact ⟨rfl, rfl, fun _ hc => hc⟩
  | updateStatus obj =>
    obtain ⟨s, hs, rfl⟩ := h
    exact Or.inl ⟨s, advances_updateStatus hs, rfl⟩

theorem Good.serve (h : Good w) (hs : serve w i o w') : Good w' := by
  rcases serve_cases hs with ⟨s, ha, rfl⟩ | ⟨hstore, hinformer, -⟩
  · exact h.write ha
  · unfold Good
    rw [hstore, hinformer]
    exact h

theorem Good.owed_serve (h : Good w) (hs : FrpServerWorld.serve w i o w') (k : NamespacedName) :
    Owed k w' ∨ (¬ Owed k w ∧ Keeps k w w') := by
  rcases serve_cases hs with ⟨s, -, rfl⟩ | ⟨hstore, hinformer, hchecks⟩
  · exact h.owed_write s k
  · by_cases howed : Owed k w
    · left
      unfold Owed
      rw [hinformer]
      exact howed
    · refine Or.inr ⟨howed, ?_, hchecks⟩
      rw [hstore, hinformer]
      exact (Keeps.refl k w).servers

end Serve
end FrpServerWorld

structure ReportedHealthy (status : FrpServerStatus) : Prop where
  phase : status.phase = .healthy
  reason : status.reason = isHealthy
  condition : ∃ cond, findStatusCondition status.conditions initializedType = some cond ∧
    cond.status = .conditionTrue ∧ cond.reason = reasonInitialized ∧ cond.message = isHealthy

theorem reportedHealthy_checkedStatus (now : Time) (status : FrpServerStatus) :
    ReportedHealthy (checkedStatus now none status) := by
  obtain ⟨cond, hfind, htrue, -⟩ := find_checkedStatus now none status
  obtain ⟨cond', hfind', hreason, hmessage⟩ := find_checkedStatus_reason now none status
  obtain rfl := Option.some.inj (hfind.symm.trans hfind')
  exact ⟨rfl, rfl, cond, hfind, htrue, hreason, hmessage⟩

/-- The `FrpServer` with this key, if there is one, is reported healthy, and this was found of
the object as it is stored. -/
def FrpServerSettled (k : NamespacedName) (w : FrpServerWorld) : Prop :=
  ∀ obj ∈ w.store.servers, obj.key = k →
    ReportedHealthy obj.body.status ∧ (obj, none) ∈ w.checks

section Quiet
open FrpServerWorld
variable {k : NamespacedName} {w w' : FrpServerWorld} {obj : FrpServer}

abbrev FrpServerWorld.watching :
    Watching (Object.key : FrpServer → NamespacedName) ServerRequest ServerResponse
      FrpServerWorld where
  serve := FrpServerWorld.serve
  Good := Good
  Owed := Owed
  Keeps := Keeps
  stored w := w.store.servers
  cached w := w.informer.indexer
  synced hw hquiet := Informer.Tracks.synced hw.toTracks hw.connected hquiet
  kept hk hkey := hk.servers.indexer _ hkey
  reported hw hs k := hw.owed_serve hs k

structure ServerChecked (k : NamespacedName) (obj : FrpServer) (check : Option GoError)
    (w : FrpServerWorld) : Prop extends watching.Viewed k obj w where
  logged : (obj, check) ∈ w.checks

theorem ServerChecked.stable {check : Option GoError} (w w' : FrpServerWorld)
    (h : ServerChecked k obj check w) (hm : watching.quietly k w w') :
    ServerChecked k obj check w' :=
  Watching.stable_of_keeps (fun _ _ h hs hk => ⟨h.toViewed.keep hs hk, hk.checks _ h.logged⟩)
    w w' h hm

/-- An update that was accepted has changed nothing: the change would be on its way. -/
theorem unchanged_of_viewed (h : watching.Viewed k obj w) {status : FrpServerStatus}
    {stored : FrpServer} (hs : watching.quietServe k w
      (.updateStatus (FrpServer.setStatus obj status)) (.ok stored) w') :
    obj.body.status = status := by
  have hafter := (h.serve hs).stored
  obtain ⟨-, ⟨s, ⟨cur, hcur, -, heq⟩, rfl⟩, -⟩ := hs
  have hcur' : w.store.servers.find? obj.key = some cur := hcur
  obtain rfl : obj = cur :=
    Option.some.inj ((Table.find?_of_mem h.stored).symm.trans hcur')
  obtain rfl : s = _ := congrArg Prod.snd heq
  rcases w.store.put_cases obj (FrpServer.setStatus obj status) with ⟨hsame, -⟩ | ⟨new, rfl, hput⟩
  · exact congrArg (fun x : FrpServer => x.body.status) hsame.symm
  · have hmem : obj ∈ (w.store.put obj (FrpServer.setStatus obj status)).2.servers := hafter
    rw [hput] at hmem
    rcases Table.mem_replace.mp hmem with ⟨hsame, -⟩ | ⟨-, hne⟩
    · -- the version of what is stored was given out before
      have hversion := (h.good.sound obj h.stored).2
      have hnew : obj.resourceVersion = w.store.revision + 1 :=
        congrArg (fun x : FrpServer => x.resourceVersion) hsame
      have hle : obj.resourceVersion ≤ w.store.revision := hversion
      omega
    · exact absurd rfl hne

theorem newAggregate_ne_none {errlist : List (Option GoError)} (err : GoError)
    (h : some err ∈ errlist) : newAggregate errlist ≠ none :=
  fun hnone => by cases newAggregate_eq_none.mp hnone _ h

theorem wp_pending_quiet (h : watching.Viewed k obj w) (hphase : obj.body.status.phase = .unknown) :
    (do
      let updated ← ServerApi.updateStatus
        (FrpServer.setStatus obj { obj.body.status with phase := .pending })
      return newAggregate [none, errorOf updated] : ServerApi (Option GoError)).wp
      (watching.quietly k) (watching.quietServe k) (fun _ _ _ _ => True)
      (Watching.Outcome FrpServerSettled k) w := by
  refine Program.wp_call_bind (watching.Viewed k obj) h Watching.Viewed.stable fun w h o w' ho => ?_
  refine ⟨trivial, Or.inl ?_⟩
  cases o with
  | error err => exact newAggregate_ne_none err (by simp [errorOf])
  | ok stored =>
    have hsame := unchanged_of_viewed h ho
    have hpending := congrArg FrpServerStatus.phase hsame
    rw [hphase] at hpending
    cases hpending

theorem wp_check_quiet (h : watching.Viewed k obj w) :
    (do
      let check ← ServerApi.validateFrpServerConfig obj
      let now ← ServerApi.now
      let updated ← ServerApi.updateStatus
        (FrpServer.setStatus obj (checkedStatus now check obj.body.status))
      return newAggregate [check, errorOf updated] : ServerApi (Option GoError)).wp
      (watching.quietly k) (watching.quietServe k) (fun _ _ _ _ => True)
      (Watching.Outcome FrpServerSettled k) w := by
  refine Program.wp_call_bind (watching.Viewed k obj) h Watching.Viewed.stable ?_
  intro w h check w₁ ho
  have hlogged : (obj, check) ∈ w₁.checks := by
    obtain ⟨-, hserve, -⟩ := ho
    obtain rfl : w₁ = { w with checks := (obj, check) :: w.checks } := hserve
    exact List.mem_cons_self
  have hchecked : ServerChecked k obj check w₁ := ⟨h.serve ho, hlogged⟩
  refine ⟨trivial, Program.wp_call_bind (ServerChecked k obj check) hchecked
    ServerChecked.stable fun w h now w₂ ho => ?_⟩
  have hsame : w₂ = w := ho.2.1
  rw [hsame]
  refine ⟨trivial, Program.wp_call_bind (ServerChecked k obj check) h
    ServerChecked.stable fun w h o w' ho => ⟨trivial, ?_⟩⟩
  cases check with
  | some err => exact Or.inl (newAggregate_ne_none err (by simp))
  | none =>
    cases o with
    | error err => exact Or.inl (newAggregate_ne_none err (by simp [errorOf]))
    | ok stored =>
      right
      intro obj' hmem hkey
      obtain rfl : obj' = obj := (h.toViewed.serve ho).eq_of_stored hmem hkey
      constructor
      · rw [unchanged_of_viewed h.toViewed ho]
        exact reportedHealthy_checkedStatus now _
      · obtain ⟨-, ⟨s, -, rfl⟩, -⟩ := ho
        exact h.logged

/-- A run that nothing disturbs settles its key, or is made again. -/
theorem wp_serverReconcile_quiet (h : watching.Still k w) :
    (reconcile k).wp (watching.quietly k) (watching.quietServe k) (fun _ _ _ _ => True)
      (Watching.Outcome FrpServerSettled k) w := by
  unfold reconcile
  refine Program.wp_call_bind (watching.Still k) h
    (Watching.stable_of_keeps fun _ _ _ hs _ => hs) fun w hstill o w' ho => ⟨trivial, ?_⟩
  cases o with
  | error err =>
    obtain ⟨-, ⟨hnone, -, rfl⟩, -⟩ := ho
    right
    intro obj hmem hkey
    exact absurd hkey (Watching.ne_of_find_none hstill hnone obj hmem)
  | ok obj =>
    obtain ⟨-, ⟨hfind, rfl⟩, -⟩ := ho
    have hviewed : watching.Viewed k obj w' := Watching.viewed_of_find hstill hfind
    dsimp only
    split
    next hphase => exact wp_pending_quiet hviewed hphase
    next hphase => exact wp_check_quiet hviewed

theorem frpServerSettled_of_keeps (hk : FrpServerWorld.Keeps k w w') (h : FrpServerSettled k w) :
    FrpServerSettled k w' := by
  intro obj hmem hkey
  obtain ⟨hreported, hlogged⟩ := h obj ((hk.servers.stored obj hkey).mp hmem) hkey
  exact ⟨hreported, hk.checks _ hlogged⟩

end Quiet

def frpServerController : Controller NamespacedName ServerRequest ServerResponse FrpServerWorld
    GoError where
  reconcile key := do
    let err ← FrpServerReconciler.reconcile key
    return { requeue := false, requeueAfter := 0, err := err }
  serve := FrpServerWorld.serve
  env := FrpServerWorld.Env
  terminal _ := false

theorem frpServerController_compatible :
    frpServerController.system.Compatible FrpServerWorld.Good (fun _ _ _ _ _ => True)
      (fun _ _ _ => True) where
  env := by
    rintro w w' hw ⟨added, henv⟩
    exact hw.env henv
  guarantee _ _ _ _ _ hw hs _ := hw.serve hs
  start _ _ _ _ _ := Program.wp_trivial _
  stable _ _ _ _ _ _ := trivial

theorem frpServerController_levelTriggered :
    Controller.LevelTriggered frpServerController FrpServerWorld.Good FrpServerWorld.Owed
      FrpServerWorld.Keeps FrpServerSettled (fun _ _ _ _ _ => True) :=
  Watching.levelTriggered (W := FrpServerWorld.watching) rfl (fun _ => rfl) (fun _ => rfl)
    (fun _ _ _ hw he k => hw.owed_env he k) (fun _ _ h => wp_serverReconcile_quiet h)
    fun _ _ _ _ _ hk h => frpServerSettled_of_keeps hk h

/-- The informer has listed what is stored, and nothing was checked yet. -/
def FrpServerWorld.start (servers : Table (Object.key : FrpServer → NamespacedName))
    (revision : ℕ) : FrpServerWorld :=
  ⟨.ofServers servers revision, Informer.new.relist servers, []⟩

theorem FrpServerWorld.good_start {servers : Table (Object.key : FrpServer → NamespacedName)}
    {revision : ℕ} (hversions : ∀ obj ∈ servers, obj.resourceVersion ≤ revision) :
    Good (start servers revision) :=
  Informer.live_relist fun obj hobj => ⟨trivial, hversions obj hobj⟩

/-- When the controller is at rest and its informer has caught up, every `FrpServer` is reported
healthy, and the object as it is stored has passed a health check. -/
theorem frpServers_healthy_at_rest {ω : Type} [DecidableEq ω]
    {servers : Table (Object.key : FrpServer → NamespacedName)} {revision : ℕ}
    (hversions : ∀ obj ∈ servers, obj.resourceVersion ≤ revision)
    {ls : List (Controller.Label ω NamespacedName ServerRequest ServerResponse GoError)}
    {c : Controller.State ω NamespacedName ServerRequest ServerResponse FrpServerWorld GoError}
    (h : Controller.Runs frpServerController (FrpServerWorld.start servers revision) ls c)
    (hrest : Controller.AtRest c) (hdrained : c.world.informer.Drained) {obj : FrpServer}
    (hobj : obj ∈ c.world.store.servers) :
    ReportedHealthy obj.body.status ∧ (obj, none) ∈ c.world.checks := by
  have hgood := FrpServerWorld.good_start hversions
  have hfirst : ∀ k, FrpServerWorld.Owed k (FrpServerWorld.start servers revision) ∨
      FrpServerSettled k (FrpServerWorld.start servers revision) := by
    intro k
    by_cases hk : ∃ obj ∈ servers, obj.key = k
    · obtain ⟨obj, hobj, hk⟩ := hk
      exact Or.inl (Informer.owed_relist hobj hk)
    · exact Or.inr fun obj hobj hkey => absurd ⟨obj, hobj, hkey⟩ hk
  have hnow := h.world_inv frpServerController_compatible hgood
  exact h.settled_at_rest frpServerController_compatible frpServerController_levelTriggered hgood
    hfirst hrest (hnow.toTracks.not_owed hdrained) obj hobj rfl

section Sample

private def FrpServerWorld.answer (w : FrpServerWorld) :
    (i : ServerRequest) → ServerResponse i × FrpServerWorld
  | .get key =>
    match w.informer.indexer.find? key with
    | some obj => (.ok obj, w)
    | none => (.error (.status ⟨.notFound, 404, key.name⟩), w)
  | .validateFrpServerConfig obj => (none, { w with checks := (obj, none) :: w.checks })
  | .now => (1, w)
  | .updateStatus obj =>
    match w.store.servers.find? obj.key with
    | some cur =>
      if cur.resourceVersion = obj.resourceVersion then
        (.ok (w.store.put cur (FrpServer.setStatus cur obj.body.status)).1,
          w.write (w.store.put cur (FrpServer.setStatus cur obj.body.status)).2)
      else (.error (.text "conflict"), w.write w.store)
    | none => (.error (.text "not found"), w.write w.store)

private theorem FrpServerWorld.serve_answer (w : FrpServerWorld) (i : ServerRequest) :
    serve w i (w.answer i).1 (w.answer i).2 := by
  cases i with
  | get key => cases h : w.informer.indexer.find? key <;> simp [answer, h, serve]; rfl
  | validateFrpServerConfig obj => rfl
  | now => rfl
  | updateStatus obj =>
    cases h : w.store.servers.find? obj.key with
    | none =>
      simp only [answer, h]
      exact ⟨w.store, rfl, rfl⟩
    | some cur =>
      simp only [answer, h]
      split
      next hv => exact ⟨_, ⟨cur, h, hv, rfl⟩, rfl⟩
      next => exact ⟨w.store, rfl, rfl⟩

/-- A new server: the first run writes what its check has found, and the second finds it so. -/
theorem exists_run_tcpServer :
    ∃ (ls : List (Controller.Label Unit NamespacedName ServerRequest ServerResponse GoError))
      (c : Controller.State Unit NamespacedName ServerRequest ServerResponse FrpServerWorld
        GoError),
      Controller.Runs frpServerController
          (FrpServerWorld.start (Table.empty.upsert tcpServer) 1) ls c ∧
        Controller.AtRest c ∧ c.world.informer.Drained ∧
        c.world.store.servers.entries = [{ FrpServer.setStatus tcpServer
          (checkedStatus 1 none .empty) with resourceVersion := 2 }] := by
  have h : Controller.Runs frpServerController
      (FrpServerWorld.start (Table.empty.upsert tcpServer) 1) []
      (Controller.start _ : Controller.State Unit _ _ _ _ _) := .nil
  have h := Trace.snoc h (.env (.informer (.pop false)))
  have h := Trace.snoc h (.env (.informer (.deliver (show _ = [_] from rfl))))
  obtain ⟨_, h⟩ := Controller.Runs.turn FrpServerWorld.serve_answer h () rfl tcpServer.key [] rfl
  have h := Trace.snoc h (.env (.informer .event))
  have h := Trace.snoc h (.env (.informer (.pop false)))
  have h := Trace.snoc h (.env (.informer (.deliver (show _ = [_] from rfl))))
  obtain ⟨_, h⟩ := Controller.Runs.turn FrpServerWorld.serve_answer h () rfl tcpServer.key [] rfl
  exact ⟨_, _, h, ⟨rfl, rfl, rfl, rfl, fun _ => rfl⟩, ⟨rfl, rfl, rfl⟩, by decide⟩

theorem frpServers_healthy_at_rest_new :
    ∃ (ls : List (Controller.Label Unit NamespacedName ServerRequest ServerResponse GoError))
      (c : Controller.State Unit NamespacedName ServerRequest ServerResponse FrpServerWorld
        GoError),
      Controller.Runs frpServerController
          (FrpServerWorld.start (Table.empty.upsert tcpServer) 1) ls c ∧
        ∃ obj ∈ c.world.store.servers, obj.key = tcpServer.key ∧
          ReportedHealthy obj.body.status ∧ (obj, none) ∈ c.world.checks := by
  obtain ⟨ls, c, h, hrest, hdrained, hentries⟩ := exists_run_tcpServer
  have hmem : { FrpServer.setStatus tcpServer (checkedStatus 1 none .empty) with
      resourceVersion := 2 } ∈ c.world.store.servers := by
    rw [Table.mem_def, hentries]
    exact List.mem_singleton.mpr rfl
  exact ⟨ls, c, h, _, hmem, rfl, frpServers_healthy_at_rest (by decide) h hrest hdrained hmem⟩

end Sample
end FrpProvisioner
