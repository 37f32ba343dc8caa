import FrpProvisioner.Controller.StatusHistory

/-! The order of the phases of an `FrpServer`. A run looks for `Unknown` to set `Pending`, and
takes every other phase, that of a new object included, for one that was `Pending` before. -/
namespace FrpProvisioner
open Effect FrpServerReconciler

namespace FrpServers
variable {s s' : FrpServers} {cur new : FrpServer} {key : NamespacedName}

def PendingStored (key : NamespacedName) (s : FrpServers) : Prop :=
  ∃ a ∈ s.past, a.key = key ∧ a.body.status.phase = .pending

/-- What a run does is in order: it makes no check and stores no verdict before `Pending` has
been stored, and stores `Pending` only over `Unknown`. -/
def InOrder (key : NamespacedName) (s : FrpServers) :
    (i : ServerRequest) → ServerResponse i → Prop
  | .validateFrpServerConfig obj, _ => obj.key = key → PendingStored key s
  | .updateStatus w, .ok stored => w.key = key →
      (stored.body.status.phase = .healthy ∨ stored.body.status.phase = .unhealthy →
        PendingStored key s) ∧
      (stored.body.status.phase = .pending →
        ∃ cur, s.servers.find? key = some cur ∧ cur.body.status.phase = .unknown)
  | _, _ => True

def PendingFirst (π : Type) [DecidableEq π] (key : NamespacedName) (s : FrpServers) : Prop :=
  ∀ ls (c d : Config π ServerRequest ServerResponse FrpServers (Option GoError)) p i o,
    System.Run (system π) (System.idle s) ls c → System.Step (system π) c (.call p i o) d →
    InOrder key c.state i o

/-- Until `Pending` has been stored, every copy is `Unknown`. -/
structure PhaseInv (key : NamespacedName) (s : FrpServers) : Prop where
  versioned : s.Versioned
  before : PendingStored key s ∨ ∀ a ∈ s.past, a.key = key → a.body.status.phase = .unknown

theorem PhaseInv.pendingStored (h : PhaseInv key s) {a : FrpServer} (ha : a ∈ s.past)
    (hkey : a.key = key) (hphase : a.body.status.phase ≠ .unknown) : PendingStored key s := by
  rcases h.before with hpending | hall
  · exact hpending
  · exact absurd (hall a ha hkey) hphase

/-- A run checks only what it has not read as `Unknown`, and writes `Pending` over what it has. -/
def PhaseGuarantee (key : NamespacedName) : Server ServerRequest ServerResponse FrpServers
  | s, .validateFrpServerConfig obj, _, _ => obj.key = key → PendingStored key s
  | s, .updateStatus w, _, _ => ∃ copy ∈ s.past, copy.key = w.key ∧
      copy.resourceVersion = w.resourceVersion ∧
      ((copy.body.status.phase = .unknown ∧ w.body.status.phase = .pending) ∨
        (copy.body.status.phase ≠ .unknown ∧
          (w.body.status.phase = .healthy ∨ w.body.status.phase = .unhealthy)))
  | _, _, _, _ => True

theorem pendingStored_put (h : PendingStored key s) (cur new : FrpServer) :
    PendingStored key (s.put cur new).2 := by
  obtain ⟨a, ha, hkey, hphase⟩ := h
  exact ⟨a, past_put s cur new ha, hkey, hphase⟩

/-- A write adds nothing to the record but the stored object. -/
theorem mem_past_put (hversioned : s.Versioned) (hcur : s.servers.find? new.key = some cur)
    {a : FrpServer} (ha : a ∈ (s.put cur new).2.past) : a ∈ s.past ∨ a = (s.put cur new).1 := by
  rcases s.put_cases cur new with ⟨-, hput⟩ | ⟨stored, -, hput⟩
  · rw [hput] at ha
    exact Or.inl ha
  · have hstored := mem_put (a := a) hcur
    rw [hput] at ha hstored ⊢
    rcases List.mem_append.mp ha with hmem | hpast
    · rcases hstored.mp hmem with rfl | ⟨hold, -⟩
      · exact Or.inr rfl
      · exact Or.inl (hversioned.stored a hold)
    · exact Or.inl hpast

/-- A write keeps the invariant if it comes after `Pending`, or is `Unknown` or `Pending`. -/
theorem PhaseInv.put (h : PhaseInv key s) (hcur : s.servers.find? new.key = some cur)
    (hnew : new.key = key → PendingStored key s ∨ new.body.status.phase = .unknown ∨
      new.body.status.phase = .pending) : PhaseInv key (s.put cur new).2 := by
  refine ⟨h.versioned.put cur new, ?_⟩
  have hbody : (s.put cur new).1.body = new.body := by rw [put_fst]
  have hkey : (s.put cur new).1.key = new.key := by
    rw [put_fst]
    rfl
  by_cases hpending : PendingStored key (s.put cur new).2
  · exact Or.inl hpending
  · have hbefore : ¬ PendingStored key s := fun hs => hpending (pendingStored_put hs cur new)
    refine Or.inr fun a ha hak => ?_
    rcases mem_past_put h.versioned hcur ha with hold | rfl
    · exact (h.before.resolve_left hbefore) a hold hak
    · rw [hkey] at hak
      rw [hbody]
      rcases hnew hak with hs | hunknown | hphase
      · exact absurd hs hbefore
      · exact hunknown
      · refine absurd ⟨(s.put cur new).1, ha, hkey.trans hak, ?_⟩ hpending
        rw [hbody]
        exact hphase

/-- What an accepted write of a run was made from. -/
theorem PhaseInv.accepted (h : PhaseInv key s) {w stored : FrpServer}
    {o : Except GoError FrpServer} (hG : PhaseGuarantee key s (.updateStatus w) o s')
    (hserve : serve s (.updateStatus w) (.ok stored) s') : ∃ cur,
      s.servers.find? w.key = some cur ∧ cur ∈ s.past ∧ cur.key = w.key ∧
      (stored, s') = s.put cur (FrpServer.setStatus cur w.body.status) ∧
      ((cur.body.status.phase = .unknown ∧ w.body.status.phase = .pending) ∨
        (cur.body.status.phase ≠ .unknown ∧
          (w.body.status.phase = .healthy ∨ w.body.status.phase = .unhealthy))) := by
  obtain ⟨copy, hcopy, hkey, hversion, hphase⟩ := hG
  obtain ⟨cur, hcur, hcurVersion, heq⟩ := hserve
  obtain rfl := h.versioned.eq_stored hcopy (hkey ▸ hcur) (hcurVersion.trans hversion.symm)
  exact ⟨copy, hcur, hcopy, hkey, heq, hphase⟩

theorem phase_compatible (π : Type) (key : NamespacedName) :
    (system π).Compatible (PhaseInv key) (fun _ => PhaseGuarantee key) (fun _ _ _ => True) where
  env s s' h henv := by
    cases henv with
    | @write copy cur new hcopy hcur hversion hkey hedit =>
      obtain rfl := h.versioned.eq_stored hcopy hcur hversion
      apply h.put (hkey ▸ hcur)
      intro hnew
      by_cases hphase : copy.body.status.phase = .unknown
      · rcases hedit.phase with hsame | hunknown
        · exact Or.inr (Or.inl (hsame.trans hphase))
        · exact Or.inr (Or.inl hunknown)
      · exact Or.inl (h.pendingStored hcopy (hkey.symm.trans hnew) hphase)
  guarantee p s i o s' h hserve hG := by
    cases i with
    | get key' =>
      cases o with
      | error err => exact hserve.2 ▸ h
      | ok obj => exact hserve.2.2 ▸ h
    | validateFrpServerConfig obj =>
      obtain rfl : s' = s := hserve
      exact h
    | now =>
      obtain rfl : s' = s := hserve
      exact h
    | updateStatus w =>
      cases o with
      | error err =>
        obtain rfl : s' = s := hserve
        exact h
      | ok stored =>
        obtain ⟨cur, hcur, hmem, hkey, heq, hphase⟩ := h.accepted hG hserve
        obtain rfl : s' = _ := congrArg Prod.snd heq
        have hcur' : s.servers.find? (FrpServer.setStatus cur w.body.status).key = some cur := by
          show s.servers.find? cur.key = some cur
          rw [hkey, hcur]
        apply h.put hcur'
        intro hnew
        rcases hphase with ⟨-, hpending⟩ | ⟨hknown, -⟩
        · exact Or.inr (Or.inr hpending)
        · exact Or.inl (h.pendingStored hmem hnew hknown)
  start p s prog _ hstart := by
    obtain ⟨req, rfl⟩ := hstart
    apply wp_reconcile
    · intros
      trivial
    · intros
      trivial
    · intro s obj o s' hinv hobj hphase hkey
      exact hinv.pendingStored hobj hkey hphase
    · intro s obj o s' hobj hphase
      exact ⟨obj, hobj, rfl, rfl, Or.inl ⟨hphase, rfl⟩⟩
    · intro s obj now check o s' hobj hphase
      refine ⟨obj, hobj, rfl, rfl, Or.inr ⟨hphase, ?_⟩⟩
      cases check with
      | none => exact Or.inl rfl
      | some err => exact Or.inr rfl
  stable _ _ _ _ _ _ := trivial

theorem PhaseInv.inOrder (h : PhaseInv key s) {i : ServerRequest} {o : ServerResponse i}
    (hserve : serve s i o s') (hG : PhaseGuarantee key s i o s') : InOrder key s i o := by
  cases i with
  | get key' => trivial
  | now => trivial
  | validateFrpServerConfig obj => exact hG
  | updateStatus w =>
    cases o with
    | error err => trivial
    | ok stored =>
      intro hkey
      obtain ⟨cur, hcur, hmem, hcurKey, heq, hphase⟩ := h.accepted hG hserve
      have hstored : stored.body.status.phase = w.body.status.phase := by
        have hfst : stored = (s.put cur (FrpServer.setStatus cur w.body.status)).1 :=
          congrArg Prod.fst heq
        rw [hfst, put_fst]
        rfl
      rw [hstored]
      rcases hphase with ⟨hunknown, hpending⟩ | ⟨hknown, hverdict⟩
      · constructor
        · rw [hpending]
          rintro (hp | hp) <;> cases hp
        · exact fun _ => ⟨cur, hkey ▸ hcur, hunknown⟩
      · constructor
        · exact fun _ => h.pendingStored hmem (hcurKey.trans hkey) hknown
        · intro hp
          rw [hp] at hverdict
          rcases hverdict with hv | hv <;> cases hv

variable {π : Type} [DecidableEq π]

theorem pendingFirst_of_phaseInv (h : PhaseInv key s) : PendingFirst π key s := by
  intro ls c d p i o hrun hstep
  have hinv := (System.inv_idle h).run (phase_compatible π key) hrun
  cases hstep with
  | call hp hserve => exact hinv.1.inOrder hserve (hinv.guarantee hp hserve)

/-- The first run on an object that is not `Unknown` makes a check at once. -/
theorem first_check {obj : FrpServer} (p : π) (hobj : obj ∈ s.past)
    (hphase : obj.body.status.phase ≠ .unknown) : ∃ ls,
    ∃ c d : Config π ServerRequest ServerResponse FrpServers (Option GoError),
      System.Run (system π) (System.idle s) ls c ∧
      System.Step (system π) c (.call p (.validateFrpServerConfig obj) none) d ∧ c.state = s := by
  have hprog : ∃ k l, reconcile obj.key = .request (.get obj.key) k ∧
      k (.ok obj) = .request (.validateFrpServerConfig obj) l :=
    ⟨_, _, rfl, if_neg hphase⟩
  obtain ⟨k, l, hget, hcheck⟩ := hprog
  have hstart : (system π).start p s (.request (.get obj.key) k) := ⟨obj.key, hget.symm⟩
  have hread : (system π).serve p s (.get obj.key) (.ok obj) s := ⟨hobj, rfl, rfl⟩
  have hchecked : (system π).serve p s (.validateFrpServerConfig obj) none s := rfl
  have hrun : System.Run (system π) (System.idle s)
      [.start p, .call p (.get obj.key) (.ok obj)]
      ⟨s, Function.update (Function.update (fun _ => none) p
        (some (.request (.get obj.key) k))) p (some (k (.ok obj)))⟩ :=
    .cons (.start rfl hstart) (.cons (.call (Function.update_self ..) hread) (.nil _))
  rw [hcheck] at hrun
  exact ⟨_, _, _, hrun, .call (Function.update_self ..) hchecked, rfl⟩

end FrpServers

open FrpServers in
/-- `Pending` comes before every check and verdict exactly when the object is stored as
`Unknown`, or as `Pending`, before the first run. -/
theorem pending_first_iff {π : Type} [DecidableEq π] [Nonempty π]
    (servers : Table (Object.key : FrpServer → NamespacedName)) (revision : ℕ)
    (hversion : ∀ a ∈ servers, a.resourceVersion ≤ revision) (key : NamespacedName)
    (obj : FrpServer) (hobj : servers.find? key = some obj) :
    PendingFirst π key (ofServers servers revision) ↔
      obj.body.status.phase = .unknown ∨ obj.body.status.phase = .pending := by
  obtain ⟨hmem, hkey⟩ := Table.find?_eq_some.mp hobj
  constructor
  · intro h
    by_cases hphase : obj.body.status.phase = .unknown
    · exact Or.inl hphase
    · obtain ⟨p⟩ := ‹Nonempty π›
      obtain ⟨ls, c, d, hrun, hstep, hstate⟩ :=
        first_check (s := ofServers servers revision) p hmem hphase
      obtain ⟨a, ha, hak, hpending⟩ := hstate ▸ h ls c d p _ _ hrun hstep hkey
      -- nothing but `obj` is stored under the key
      obtain rfl : a = obj := Table.eq_of_key ha hmem (hak.trans hkey.symm)
      exact Or.inr hpending
  · intro h
    apply pendingFirst_of_phaseInv
    refine ⟨.init hversion, ?_⟩
    rcases h with hunknown | hpending
    · refine Or.inr fun a ha hak => ?_
      obtain rfl : a = obj := Table.eq_of_key ha hmem (hak.trans hkey.symm)
      exact hunknown
    · exact Or.inl ⟨obj, hmem, hkey, hpending⟩

def unknownServer : FrpServer :=
  FrpServer.setStatus tcpServer { FrpServerStatus.empty with phase := .unknown }

theorem pending_first_unknownServer : FrpServers.PendingFirst Unit unknownServer.key
    (FrpServers.ofServers (Table.empty.upsert unknownServer) 1) :=
  (pending_first_iff (Table.empty.upsert unknownServer) 1 (by decide) unknownServer.key
    unknownServer rfl).mpr (Or.inl rfl)

open FrpServers in
/-- A new `FrpServer` has an empty status. Its first run makes a check and stores the verdict,
and nothing was ever `Pending`. -/
theorem new_server_is_never_pending :
    tcpServer.body.status = .empty ∧ ¬ PendingFirst Unit tcpServer.key single ∧
      ∃ ls, ∃ c : Config Unit ServerRequest ServerResponse FrpServers (Option GoError), ∃ obj,
        System.Run (FrpServers.system Unit) (System.idle single) ls c ∧
        c.state.servers.find? tcpServer.key = some obj ∧ obj.body.status.phase = .healthy ∧
        ¬ PendingStored tcpServer.key c.state := by
  have hnew : tcpServer ∈ single.past := by decide
  have hinitial : ∀ a ∈ single.past, a.body.status.phase ≠ .pending := by decide
  have hfinal : ∀ a ∈ (Program.run (handle none none) (reconcile tcpServer.key) single).2.2.past,
      a.body.status.phase ≠ .pending := by decide
  have hrun : System.Run (FrpServers.system Unit) (System.idle single) _ ⟨_, fun _ => none⟩ :=
    System.run_program (p := ()) rfl ⟨_, rfl⟩
      (Program.exec_run (serve_handle none none (by simp)) (reconcile tcpServer.key) single)
  refine ⟨rfl, fun h => ?_, _, _, _, hrun, rfl, rfl, ?_⟩
  · obtain ⟨ls, c, d, hrun, hstep, hstate⟩ := first_check () hnew (by decide)
    obtain ⟨a, ha, -, hphase⟩ := hstate ▸ h ls c d () _ _ hrun hstep rfl
    exact hinitial a ha hphase
  · rintro ⟨a, ha, -, hphase⟩
    exact hfinal a ha hphase

end FrpProvisioner
