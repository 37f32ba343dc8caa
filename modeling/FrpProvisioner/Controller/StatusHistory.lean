import FrpProvisioner.Controller.FrpServerReconciler
import FrpProvisioner.Effect.Interleaving
import FrpProvisioner.Effect.Versions

/-! The status of `FrpServer`s under runs that read copies of any age while other clients write
too. Phase, reason and the condition `Initialized` are three copies of one fact; the API server
accepts a write only with the stored resource version. -/
namespace FrpProvisioner
open Effect FrpServerReconciler

/-- The stored `FrpServer`s with every version there has been. -/
structure FrpServers where
  servers : Table (Object.key : FrpServer → NamespacedName)
  past : List FrpServer
  revision : ℕ

namespace FrpServers

def ofServers (servers : Table (Object.key : FrpServer → NamespacedName)) (revision : ℕ) :
    FrpServers := ⟨servers, servers.entries, revision⟩

/-- New content in place of `cur`; what is stored already is not written again. -/
def put (s : FrpServers) (cur new : FrpServer) : FrpServer × FrpServers :=
  if new = cur then (cur, s)
  else
    ({ new with resourceVersion := s.revision + 1 },
      { servers := s.servers.replace { new with resourceVersion := s.revision + 1 }
        past := (s.servers.replace { new with resourceVersion := s.revision + 1 }).entries ++ s.past
        revision := s.revision + 1 })

/-- Every call may fail, NotFound being answered for objects that are not there. A get is
answered by a cache, which may be behind; an update of the status leaves the rest. -/
def serve : Server ServerRequest ServerResponse FrpServers
  | s, .get key, .ok obj, s' => obj ∈ s.past ∧ obj.key = key ∧ s' = s
  | s, .get key, .error err, s' =>
      (err.isNotFound = true → s.servers.find? key = none) ∧ s' = s
  | s, .validateFrpServerConfig _, _, s' => s' = s
  | s, .now, _, s' => s' = s
  | s, .updateStatus w, .ok stored, s' => ∃ cur, s.servers.find? w.key = some cur ∧
      cur.resourceVersion = w.resourceVersion ∧
      (stored, s') = s.put cur (FrpServer.setStatus cur w.body.status)
  | s, .updateStatus _, .error _, s' => s' = s

/-- What other clients make of a status: conditions of other types come, go and change, and the
phase is set to `Unknown`. -/
structure ForeignEdit (old new : FrpServerStatus) : Prop where
  initialized : new.conditions.filter (·.type = initializedType) =
    old.conditions.filter (·.type = initializedType)
  phase : new.phase = old.phase ∨ new.phase = .unknown
  reason : new.reason = old.reason

/-- A write of another client, made from a copy it has read. It may change the spec as well. -/
inductive Edit : FrpServers → FrpServers → Prop where
  | write {s : FrpServers} {copy cur new : FrpServer} : copy ∈ s.past →
      s.servers.find? copy.key = some cur → cur.resourceVersion = copy.resourceVersion →
      new.key = copy.key → ForeignEdit copy.body.status new.body.status → Edit s (s.put cur new).2

def system (π : Type) : System π ServerRequest ServerResponse FrpServers (Option GoError) where
  start _ _ prog := ∃ req, prog = reconcile req
  serve _ := serve
  env := Edit

end FrpServers

/-- Phase, reason and condition tell the same. -/
structure Consistent (status : FrpServerStatus) : Prop where
  single : status.conditions.countP (·.type = initializedType) ≤ 1
  healthy : status.phase = .healthy → ∃ cond,
    findStatusCondition status.conditions initializedType = some cond ∧
      cond.reason = reasonInitialized ∧ cond.message = status.reason
  unhealthy : status.phase = .unhealthy → ∃ cond,
    findStatusCondition status.conditions initializedType = some cond ∧
      cond.reason = reasonInitializeFailed ∧ cond.message = status.reason

/-- What a run writes over the status it has read: the phase `Pending`, or the outcome of a
check. -/
def StatusWrite (old new : FrpServerStatus) : Prop :=
  new = { old with phase := .pending } ∨ ∃ now check, new = checkedStatus now check old

structure SameRest (old new : FrpServerStatus) : Prop where
  serviceReferences : new.serviceReferences = old.serviceReferences
  conditions : new.conditions.filter (·.type ≠ initializedType) =
    old.conditions.filter (·.type ≠ initializedType)

section Status
variable {old new status : FrpServerStatus}

theorem consistent_empty : Consistent .empty := by
  constructor
  · decide
  · intro h
    cases h
  · intro h
    cases h

/-- A condition that a check has set carries its reason and message. -/
theorem find_checkedStatus_reason (now : Time) (check : Option GoError)
    (status : FrpServerStatus) : ∃ cond,
      findStatusCondition (checkedStatus now check status).conditions initializedType = some cond ∧
        cond.reason = (initializedCondition now check).reason ∧
        cond.message = (initializedCondition now check).message := by
  have hfind := findStatusCondition_set now (initializedCondition now check) status.conditions
  rw [initializedCondition_type] at hfind
  refine ⟨_, hfind, ?_⟩
  cases findStatusCondition status.conditions initializedType with
  | none =>
    show (Condition.fresh now _).reason = _ ∧ (Condition.fresh now _).message = _
    unfold Condition.fresh
    constructor <;> split <;> rfl
  | some existing => exact ⟨rfl, rfl⟩

theorem consistent_checkedStatus (now : Time) (check : Option GoError)
    (hone : status.conditions.countP (·.type = initializedType) ≤ 1) :
    Consistent (checkedStatus now check status) := by
  obtain ⟨cond, hfind, hreason, hmessage⟩ := find_checkedStatus_reason now check status
  have hcount := countP_setStatusCondition now (initializedCondition now check) status.conditions
  rw [initializedCondition_type] at hcount
  have hsingle :
      (checkedStatus now check status).conditions.countP (·.type = initializedType) ≤ 1 := by
    show (setStatusCondition _ _ _).countP _ ≤ 1
    omega
  cases check with
  | none =>
    exact ⟨hsingle, fun _ => ⟨cond, hfind, hreason, hmessage⟩, fun h => (nomatch h)⟩
  | some err =>
    exact ⟨hsingle, fun h => (nomatch h), fun _ => ⟨cond, hfind, hreason, hmessage⟩⟩

theorem Consistent.statusWrite (h : Consistent old) (hw : StatusWrite old new) :
    Consistent new := by
  rcases hw with rfl | ⟨now, check, rfl⟩
  · exact ⟨h.single, fun hp => (nomatch hp), fun hp => (nomatch hp)⟩
  · exact consistent_checkedStatus now check h.single

theorem StatusWrite.sameRest (hw : StatusWrite old new) : SameRest old new := by
  rcases hw with rfl | ⟨now, check, rfl⟩
  · exact ⟨rfl, rfl⟩
  · have hfilter := filter_setStatusCondition now (initializedCondition now check) old.conditions
    rw [initializedCondition_type] at hfilter
    exact ⟨rfl, hfilter⟩

/-- Other clients leave the three copies alone, or take the phase away. -/
theorem Consistent.foreignEdit (h : Consistent old) (he : FrpServers.ForeignEdit old new) :
    Consistent new := by
  have hfind : findStatusCondition new.conditions initializedType =
      findStatusCondition old.conditions initializedType := by
    unfold findStatusCondition
    rw [← List.head?_filter, ← List.head?_filter, he.initialized]
  have hcount : new.conditions.countP (·.type = initializedType) =
      old.conditions.countP (·.type = initializedType) := by
    rw [List.countP_eq_length_filter, List.countP_eq_length_filter, he.initialized]
  have hphase : ∀ phase, phase ≠ .unknown → new.phase = phase → old.phase = phase := by
    intro phase hne hnew
    rcases he.phase with hp | hp
    · exact hp.symm.trans hnew
    · exact absurd (hnew.symm.trans hp) hne
  constructor
  · rw [hcount]
    exact h.single
  · intro hnew
    rw [hfind, he.reason]
    exact h.healthy (hphase .healthy (by decide) hnew)
  · intro hnew
    rw [hfind, he.reason]
    exact h.unhealthy (hphase .unhealthy (by decide) hnew)

end Status

namespace FrpServers
variable {s s' : FrpServers} {cur new copy : FrpServer} {key : NamespacedName}

theorem put_cases (s : FrpServers) (cur new : FrpServer) :
    (new = cur ∧ s.put cur new = (cur, s)) ∨
      ∃ stored, stored = { new with resourceVersion := s.revision + 1 } ∧ s.put cur new =
        (stored, ⟨s.servers.replace stored, (s.servers.replace stored).entries ++ s.past,
          s.revision + 1⟩) := by
  unfold put
  split
  next h => exact Or.inl ⟨h, rfl⟩
  next => exact Or.inr ⟨_, rfl, rfl⟩

theorem put_fst (s : FrpServers) (cur new : FrpServer) : (s.put cur new).1 =
    { new with resourceVersion := (s.put cur new).1.resourceVersion } := by
  rcases s.put_cases cur new with ⟨rfl, hput⟩ | ⟨stored, rfl, hput⟩
  · rw [hput]
  · rw [hput]

theorem past_put (s : FrpServers) (cur new : FrpServer) {a : FrpServer} (ha : a ∈ s.past) :
    a ∈ (s.put cur new).2.past := by
  rcases s.put_cases cur new with ⟨-, hput⟩ | ⟨stored, -, hput⟩
  · rw [hput]
    exact ha
  · rw [hput]
    exact List.mem_append_right _ ha

theorem mem_put (hcur : s.servers.find? new.key = some cur) {a : FrpServer} :
    a ∈ (s.put cur new).2.servers ↔
      a = (s.put cur new).1 ∨ (a ∈ s.servers ∧ a.key ≠ new.key) := by
  obtain ⟨hmem, hkey⟩ := Table.find?_eq_some.mp hcur
  rcases s.put_cases cur new with ⟨rfl, hput⟩ | ⟨stored, rfl, hput⟩
  · rw [hput]
    constructor
    · intro ha
      by_cases hk : a.key = new.key
      · exact Or.inl (Table.eq_of_key ha hmem hk)
      · exact Or.inr ⟨ha, hk⟩
    · rintro (rfl | ha)
      · exact hmem
      · exact ha.1
  · rw [hput]
    refine Table.mem_replace.trans ?_
    constructor
    · rintro (⟨ha, -⟩ | ha)
      · exact Or.inl ha
      · exact Or.inr ha
    · rintro (ha | ha)
      · exact Or.inl ⟨ha, cur, hmem, hkey⟩
      · exact Or.inr ha

theorem find?_put (hcur : s.servers.find? new.key = some cur) :
    (s.put cur new).2.servers.find? new.key = some (s.put cur new).1 := by
  refine Table.find?_eq_some.mpr ⟨(mem_put hcur).mpr (Or.inl rfl), ?_⟩
  rw [put_fst]
  rfl

theorem stored_put {stored : FrpServer} (hcur : s.servers.find? new.key = some cur)
    (heq : (stored, s') = s.put cur new) :
    s'.servers.find? new.key = some stored ∧ stored.body = new.body := by
  have hstored : stored = (s.put cur new).1 := congrArg Prod.fst heq
  have hs' : s' = (s.put cur new).2 := congrArg Prod.snd heq
  constructor
  · rw [hs', hstored, find?_put hcur]
  · rw [hstored, put_fst]

/-- Copies of an `FrpServer` can be told apart by their versions. -/
def Versioned (s : FrpServers) : Prop :=
  Recorded (fun a : FrpServer => a.resourceVersion) s.servers s.past s.revision

theorem Versioned.put (h : s.Versioned) (cur new : FrpServer) : (s.put cur new).2.Versioned := by
  unfold Versioned
  rcases s.put_cases cur new with ⟨-, hput⟩ | ⟨stored, rfl, hput⟩
  · rw [hput]
    exact h
  · rw [hput]
    refine h.advance fun a ha => ?_
    rcases Table.mem_replace.mp ha with ⟨rfl, -⟩ | ⟨ha, -⟩
    · exact Or.inr rfl
    · exact Or.inl ha

/-- A copy with the stored version is the stored object. -/
theorem Versioned.eq_stored (h : s.Versioned) (hcopy : copy ∈ s.past)
    (hcur : s.servers.find? copy.key = some cur)
    (hversion : cur.resourceVersion = copy.resourceVersion) : copy = cur := by
  obtain ⟨hmem, hkey⟩ := Table.find?_eq_some.mp hcur
  exact Recorded.eq_stored h hcopy hmem hkey.symm hversion.symm

structure StatusInv (key : NamespacedName) (s : FrpServers) : Prop where
  versioned : s.Versioned
  consistent : ∀ obj, s.servers.find? key = some obj → Consistent obj.body.status

/-- A write that keeps the status consistent keeps the invariant. -/
theorem StatusInv.put (h : StatusInv key s) (hcur : s.servers.find? new.key = some cur)
    (hnew : Consistent cur.body.status → Consistent new.body.status) :
    StatusInv key (s.put cur new).2 := by
  refine ⟨h.versioned.put cur new, fun obj hobj => ?_⟩
  obtain ⟨hmem, hkey⟩ := Table.find?_eq_some.mp hobj
  rcases (mem_put hcur).mp hmem with rfl | ⟨hold, -⟩
  · have hkey' : new.key = key := by
      rw [put_fst] at hkey
      exact hkey
    rw [put_fst]
    exact hnew (h.consistent cur (hkey' ▸ hcur))
  · exact h.consistent obj (Table.find?_eq_some.mpr ⟨hold, hkey⟩)

def Guarantee : Server ServerRequest ServerResponse FrpServers
  | s, .updateStatus w, _, _ => ∃ copy ∈ s.past, copy.key = w.key ∧
      copy.resourceVersion = w.resourceVersion ∧ StatusWrite copy.body.status w.body.status
  | _, _, _, _ => True

theorem past_serve {i : ServerRequest} {o : ServerResponse i} (h : serve s i o s')
    {a : FrpServer} (ha : a ∈ s.past) : a ∈ s'.past := by
  cases i with
  | get key =>
    cases o with
    | error err => exact h.2 ▸ ha
    | ok obj => exact h.2.2 ▸ ha
  | validateFrpServerConfig obj =>
    obtain rfl : s' = s := h
    exact ha
  | now =>
    obtain rfl : s' = s := h
    exact ha
  | updateStatus w =>
    cases o with
    | error err =>
      obtain rfl : s' = s := h
      exact ha
    | ok stored =>
      obtain ⟨cur, -, -, heq⟩ := h
      obtain rfl : s' = _ := congrArg Prod.snd heq
      exact past_put s cur _ ha

section Run
variable {π : Type} {p : π} {I : FrpServers → Prop}
  {G : π → Server ServerRequest ServerResponse FrpServers}

theorem past_rely (h : Relation.ReflTransGen ((system π).Rely I G p) s s') {a : FrpServer}
    (ha : a ∈ s.past) : a ∈ s'.past := by
  induction h with
  | refl => exact ha
  | tail _ hstep ih =>
    rcases hstep.2 with henv | ⟨q, -, i, o, hserve, -⟩
    · cases henv with
      | write => exact past_put _ _ _ ih
    · exact past_serve hserve ih

/-- A run keeps every guarantee that holds of what it writes over a copy on record: the copy it
has read stays there until it is written. -/
theorem wp_reconcile {req : NamespacedName} (hget : ∀ s o s', G p s (.get req) o s')
    (hnow : ∀ s o s', G p s .now o s')
    (hcheck : ∀ s obj o s', I s → obj ∈ s.past → obj.body.status.phase ≠ .unknown →
      G p s (.validateFrpServerConfig obj) o s')
    (hpending : ∀ s obj o s', obj ∈ s.past → obj.body.status.phase = .unknown →
      G p s (.updateStatus (FrpServer.setStatus obj { obj.body.status with phase := .pending }))
        o s')
    (hchecked : ∀ s obj now check o s', obj ∈ s.past → obj.body.status.phase ≠ .unknown →
      G p s (.updateStatus (FrpServer.setStatus obj (checkedStatus now check obj.body.status))) o
        s') :
    (reconcile req).wp (Relation.ReflTransGen ((system π).Rely I G p)) ((system π).serveIn I p)
      (G p) (fun _ _ => True) s := by
  unfold reconcile
  refine Program.wp_call_bind (fun _ => True) trivial (fun _ _ _ _ => trivial)
    fun s _ o s' ho => ⟨hget s o s', ?_⟩
  cases o with
  | error err => trivial
  | ok obj =>
    have hserve : serve s (.get req) (.ok obj) s' := ho.2
    have hread : obj ∈ s'.past := past_serve hserve hserve.1
    have hstable : ∀ a b, obj ∈ a.past →
        Relation.ReflTransGen ((system π).Rely I G p) a b → obj ∈ b.past :=
      fun a b ha hab => past_rely hab ha
    dsimp only
    split
    next hphase =>
      refine Program.wp_call_bind (fun a => obj ∈ a.past) hread hstable
        fun a ha o b _ => ⟨hpending a obj o b ha hphase, trivial⟩
    next hphase =>
      refine Program.wp_call_bind (fun a => obj ∈ a.past) hread hstable
        fun a ha check b hb => ⟨hcheck a obj check b hb.1 ha hphase, ?_⟩
      have hchecks : serve a (.validateFrpServerConfig obj) check b := hb.2
      refine Program.wp_call_bind (fun a => obj ∈ a.past) (past_serve hchecks ha) hstable
        fun a ha now b hb => ⟨hnow a now b, ?_⟩
      have hnows : serve a .now now b := hb.2
      refine Program.wp_call_bind (fun a => obj ∈ a.past) (past_serve hnows ha) hstable
        fun a ha o b _ => ⟨hchecked a obj now check o b ha hphase, trivial⟩

end Run

abbrev statusRely (π : Type) (key : NamespacedName) (p : π) : FrpServers → FrpServers → Prop :=
  Relation.ReflTransGen ((system π).Rely (StatusInv key) (fun _ => Guarantee) p)

theorem wp_reconcile_status {π : Type} {p : π} {req : NamespacedName} :
    (reconcile req).wp (statusRely π key p) ((system π).serveIn (StatusInv key) p) Guarantee
      (fun _ _ => True) s := by
  apply wp_reconcile
  · intros
    trivial
  · intros
    trivial
  · intros
    trivial
  · intro s obj o s' hobj _
    exact ⟨obj, hobj, rfl, rfl, Or.inl rfl⟩
  · intro s obj now check o s' hobj _
    exact ⟨obj, hobj, rfl, rfl, Or.inr ⟨now, check, rfl⟩⟩

/-- An accepted write of a run has been made from the stored object. -/
theorem StatusInv.accepted (h : StatusInv key s) {w stored : FrpServer}
    {o : Except GoError FrpServer} (hG : Guarantee s (.updateStatus w) o s')
    (hserve : serve s (.updateStatus w) (.ok stored) s') :
    ∃ cur, s.servers.find? (FrpServer.setStatus cur w.body.status).key = some cur ∧
      cur.key = w.key ∧ StatusWrite cur.body.status w.body.status ∧
      (stored, s') = s.put cur (FrpServer.setStatus cur w.body.status) := by
  obtain ⟨copy, hcopy, hkey, hversion, hwrite⟩ := hG
  obtain ⟨cur, hcur, hcurVersion, heq⟩ := hserve
  obtain rfl := h.versioned.eq_stored hcopy (hkey ▸ hcur) (hcurVersion.trans hversion.symm)
  refine ⟨copy, ?_, hkey, hwrite, heq⟩
  show s.servers.find? copy.key = some copy
  rw [hkey, hcur]

theorem status_compatible (π : Type) (key : NamespacedName) :
    (system π).Compatible (StatusInv key) (fun _ => Guarantee) (fun _ _ _ => True) where
  env s s' h henv := by
    cases henv with
    | @write copy cur new hcopy hcur hversion hkey hedit =>
      obtain rfl := h.versioned.eq_stored hcopy hcur hversion
      exact h.put (hkey ▸ hcur) fun hc => hc.foreignEdit hedit
  guarantee p s i o s' h hserve hG := by
    cases i with
    | get key' =>
      cases o with
      | error err => exact hserve.2 ▸ h
      | ok obj => exact hserve.2.2 ▸ h
    | validateFrpServerConfig obj =>
      obtain rfl : s' = s := hserve
      exact h
    | now =>
      obtain rfl : s' = s := hserve
      exact h
    | updateStatus w =>
      cases o with
      | error err =>
        obtain rfl : s' = s := hserve
        exact h
      | ok stored =>
        obtain ⟨cur, hcur, -, hwrite, heq⟩ := h.accepted hG hserve
        obtain rfl : s' = _ := congrArg Prod.snd heq
        exact h.put hcur fun hc => hc.statusWrite hwrite
  start p s prog _ hstart := by
    obtain ⟨req, rfl⟩ := hstart
    exact wp_reconcile_status
  stable _ _ _ _ _ _ := trivial

end FrpServers

open FrpServers in
/-- From an empty status on, the status of an `FrpServer` is consistent in every reachable state,
and a write of a run leaves the spec and what is not its own in the status as they are stored. -/
theorem status_self_consistent {π : Type} [DecidableEq π]
    (servers : Table (Object.key : FrpServer → NamespacedName)) (revision : ℕ)
    (key : NamespacedName) (hversion : ∀ a ∈ servers, a.resourceVersion ≤ revision)
    (hempty : ∀ obj, servers.find? key = some obj → obj.body.status = .empty)
    (ls : List (Label π ServerRequest ServerResponse (Option GoError)))
    (c : Config π ServerRequest ServerResponse FrpServers (Option GoError))
    (hrun : System.Run (FrpServers.system π) (System.idle (ofServers servers revision)) ls c) :
    (∀ obj, c.state.servers.find? key = some obj →
      obj.body.status.conditions.countP (·.type = initializedType) ≤ 1 ∧
      (obj.body.status.phase = .healthy → ∃ cond,
        findStatusCondition obj.body.status.conditions initializedType = some cond ∧
          cond.reason = reasonInitialized ∧ cond.message = obj.body.status.reason) ∧
      (obj.body.status.phase = .unhealthy → ∃ cond,
        findStatusCondition obj.body.status.conditions initializedType = some cond ∧
          cond.reason = reasonInitializeFailed ∧ cond.message = obj.body.status.reason)) ∧
    (∀ p w stored d, System.Step (FrpServers.system π) c
        (.call p (.updateStatus w) (.ok stored)) d →
      ∃ cur, c.state.servers.find? w.key = some cur ∧ d.state.servers.find? w.key = some stored ∧
        stored.body.spec = cur.body.spec ∧
        stored.body.status.serviceReferences = cur.body.status.serviceReferences ∧
        stored.body.status.conditions.filter (·.type ≠ initializedType) =
          cur.body.status.conditions.filter (·.type ≠ initializedType)) := by
  have hinit : StatusInv key (ofServers servers revision) := by
    refine ⟨.init hversion, fun obj hobj => ?_⟩
    rw [hempty obj hobj]
    exact consistent_empty
  have hinv := (System.inv_idle hinit).run (status_compatible π key) hrun
  constructor
  · intro obj hobj
    have h := hinv.1.consistent obj hobj
    exact ⟨h.single, h.healthy, h.unhealthy⟩
  · intro p w stored d hstep
    cases hstep with
    | call hp hserve =>
      obtain ⟨cur, hcur, hkey, hwrite, heq⟩ :=
        hinv.1.accepted (hinv.guarantee hp hserve) hserve
      obtain ⟨hstored, hbody⟩ := stored_put hcur heq
      have hrest := hwrite.sameRest
      refine ⟨cur, hkey ▸ hcur, hkey ▸ hstored, ?_⟩
      rw [hbody]
      exact ⟨rfl, hrest.serviceReferences, hrest.conditions⟩

namespace FrpServers

/-- Answers of a server whose gets fail with `fault`, if any, and whose checks have the outcome
`check`; otherwise nothing fails without reason. -/
def handle (fault check : Option GoError) (s : FrpServers) :
    (i : ServerRequest) → ServerResponse i × FrpServers
  | .get key =>
    match fault, s.past.find? (·.key = key) with
    | none, some obj => (.ok obj, s)
    | none, none => (.error (.text "the cache is not synced"), s)
    | some err, _ => (.error err, s)
  | .validateFrpServerConfig _ => (check, s)
  | .now => (1, s)
  | .updateStatus w =>
    match s.servers.find? w.key with
    | none => (.error (.text "not stored"), s)
    | some cur =>
      if cur.resourceVersion = w.resourceVersion then
        (.ok (s.put cur (FrpServer.setStatus cur w.body.status)).1,
          (s.put cur (FrpServer.setStatus cur w.body.status)).2)
      else (.error (.text "the object has been modified"), s)

theorem serve_handle (fault check : Option GoError) (hfault : ∀ err ∈ fault, err.isNotFound = false)
    (s : FrpServers) (i : ServerRequest) :
    serve s i (handle fault check s i).1 (handle fault check s i).2 := by
  cases i with
  | get key =>
    cases fault with
    | some err => simp [handle, serve, hfault err rfl]
    | none =>
      cases hfind : s.past.find? (·.key = key) with
      | none => simp [handle, serve, hfind]
      | some obj =>
        have hkey : obj.key = key := by simpa using List.find?_some hfind
        simp [handle, serve, hfind, hkey, List.mem_of_find?_eq_some hfind]
  | validateFrpServerConfig obj => rfl
  | now => rfl
  | updateStatus w =>
    cases hfind : s.servers.find? w.key with
    | none => simp [handle, serve, hfind]
    | some cur =>
      by_cases hv : cur.resourceVersion = w.resourceVersion
      · simp [handle, serve, hfind, hv]
      · simp [handle, serve, hfind, hv]

def single : FrpServers := ofServers (Table.empty.upsert tcpServer) 1

end FrpServers

open FrpServers in
theorem status_self_consistent_single : ∃ ls,
    ∃ c : Config Unit ServerRequest ServerResponse FrpServers (Option GoError), ∃ obj cond,
      System.Run (FrpServers.system Unit) (System.idle single) ls c ∧
      c.state.servers.find? tcpServer.key = some obj ∧ obj.body.status.phase = .healthy ∧
      findStatusCondition obj.body.status.conditions initializedType = some cond ∧
      cond.message = obj.body.status.reason := by
  have hserve : ∀ s i, serve s i (handle none none s i).1 (handle none none s i).2 :=
    serve_handle none none (by simp)
  have hrun : System.Run (FrpServers.system Unit) (System.idle single) _ ⟨_, fun _ => none⟩ :=
    System.run_program (p := ()) rfl ⟨_, rfl⟩
      (Program.exec_run hserve (reconcile tcpServer.key) single)
  have hhealthy : ∃ obj, (Program.run (handle none none) (reconcile tcpServer.key)
      single).2.2.servers.find? tcpServer.key = some obj ∧ obj.body.status.phase = .healthy :=
    ⟨_, rfl, rfl⟩
  obtain ⟨obj, hobj, hphase⟩ := hhealthy
  obtain ⟨hconsistent, -⟩ := status_self_consistent (Table.empty.upsert tcpServer) 1 tcpServer.key
    (by decide) (by decide) _ _ hrun
  obtain ⟨cond, hcond, -, hmessage⟩ := (hconsistent obj hobj).2.1 hphase
  exact ⟨_, _, obj, cond, hrun, hobj, hphase, hcond, hmessage⟩

end FrpProvisioner
