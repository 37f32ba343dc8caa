import FrpProvisioner.Controller.StatusHistory

/-! Which failures of an `FrpServer` run are reported. A run that returns an error is repeated,
one that returns nil is not; a get that fails ends the run with nil. -/
namespace FrpProvisioner
open Effect FrpServerReconciler

/-- What a run that is not repeated has to have found or stored: there is no such `FrpServer`, or
it was read as `Unknown` and is stored as `Pending`, or it is stored as `Healthy` after a check
that succeeded. -/
def Settles (req : NamespacedName) (s t : FrpServers)
    (es : List (Program.Event ServerRequest ServerResponse)) : Prop :=
  s.servers.find? req = none ∨
    ∃ w stored, ⟨.updateStatus w, .ok stored⟩ ∈ es ∧ t.servers.find? req = some stored ∧
      ((stored.body.status.phase = .pending ∧
          ∃ obj, ⟨.get req, .ok obj⟩ ∈ es ∧ obj.body.status.phase = .unknown) ∨
        (stored.body.status.phase = .healthy ∧ ∃ obj, ⟨.validateFrpServerConfig obj, none⟩ ∈ es))

def Reports (req : NamespacedName) (s t : FrpServers)
    (es : List (Program.Event ServerRequest ServerResponse)) (result : Option GoError) : Prop :=
  (result = none → Settles req s t es) ∧
    ∀ err, ⟨.get req, .error err⟩ ∈ es → err.isNotFound = false → result ≠ none

section
variable {s s' : FrpServers} {w stored : FrpServer}

/-- The status that an accepted write leaves. -/
theorem stored_updateStatus (h : s.serve (.updateStatus w) (.ok stored) s') :
    s'.servers.find? w.key = some stored ∧ stored.body.status = w.body.status := by
  obtain ⟨cur, hcur, -, heq⟩ := h
  have hkey : cur.key = w.key := (Table.find?_eq_some.mp hcur).2
  have hcur' : s.servers.find? (FrpServer.setStatus cur w.body.status).key = some cur := by
    show s.servers.find? cur.key = some cur
    rw [hkey, hcur]
  obtain ⟨hstored, hbody⟩ := FrpServers.stored_put hcur' heq
  refine ⟨hkey ▸ hstored, ?_⟩
  rw [hbody]
  rfl

theorem newAggregate_pair {err : Option GoError} {o : Except GoError FrpServer}
    (h : newAggregate [err, errorOf o] = none) : err = none ∧ ∃ stored, o = .ok stored := by
  have hall := newAggregate_eq_none.mp h
  refine ⟨hall err (by simp), ?_⟩
  cases o with
  | error e => exact absurd (hall (errorOf (.error e : Except GoError FrpServer)) (by simp)) nofun
  | ok stored => exact ⟨stored, rfl⟩

end

/-- A run reports every failure exactly when its get has not failed with an error other than
NotFound. -/
theorem reconcile_reports_iff (req : NamespacedName) (s t : FrpServers)
    (es : List (Program.Event ServerRequest ServerResponse)) (result : Option GoError)
    (h : Program.Exec FrpServers.serve (reconcile req) s es result t) :
    Reports req s t es result ↔ ∀ err, ⟨.get req, .error err⟩ ∈ es → err.isNotFound = true := by
  have hwp : (reconcile req).wp Eq (Program.traced FrpServers.serve) (fun _ _ _ _ => True)
      (fun result u => Reports req s u.1 u.2 result ↔
        ∀ err, ⟨.get req, .error err⟩ ∈ u.2 → err.isNotFound = true) (s, []) := by
    unfold reconcile
    refine Program.wp_traced_call_bind fun o s₁ ho => ⟨trivial, ?_⟩
    cases o with
    | error err =>
      obtain ⟨hhonest, rfl⟩ := ho
      constructor
      · intro hreports e he
        by_contra hnf
        exact hreports.2 e he (by simpa using hnf) rfl
      · intro hall
        have hnf := hall err List.mem_cons_self
        refine ⟨fun _ => Or.inl (hhonest hnf), fun e he hne => ?_⟩
        rw [hall e he] at hne
        cases hne
    | ok obj =>
      obtain ⟨-, hkey, rfl⟩ := ho
      dsimp only
      split
      next hphase =>
        refine Program.wp_traced_call_bind fun o s₂ ho => ⟨trivial, ?_⟩
        refine iff_of_true ⟨fun hnone => ?_, fun err he => by simp at he⟩
          fun err he => by simp at he
        obtain ⟨-, stored, rfl⟩ := newAggregate_pair hnone
        obtain ⟨hstored, hstatus⟩ := stored_updateStatus ho
        have hpending : stored.body.status.phase = .pending := by
          rw [hstatus]
          rfl
        refine Or.inr ⟨_, stored, List.mem_append_right _ List.mem_cons_self, hkey ▸ hstored, ?_⟩
        exact Or.inl ⟨hpending, obj, by simp, hphase⟩
      next =>
        refine Program.wp_traced_call_bind fun check s₂ hcheck => ⟨trivial, ?_⟩
        obtain rfl : s₂ = s₁ := hcheck
        refine Program.wp_traced_call_bind fun now s₃ hnow => ⟨trivial, ?_⟩
        obtain rfl : s₃ = s₂ := hnow
        refine Program.wp_traced_call_bind fun o s₄ ho => ⟨trivial, ?_⟩
        refine iff_of_true ⟨fun hnone => ?_, fun err he => by simp at he⟩
          fun err he => by simp at he
        obtain ⟨rfl, stored, rfl⟩ := newAggregate_pair hnone
        obtain ⟨hstored, hstatus⟩ := stored_updateStatus ho
        have hhealthy : stored.body.status.phase = .healthy := by
          rw [hstatus]
          rfl
        refine Or.inr ⟨_, stored, List.mem_append_right _ List.mem_cons_self, hkey ▸ hstored, ?_⟩
        exact Or.inr ⟨hhealthy, obj, by simp⟩
  exact (h.traced []).post hwp

theorem reconcile_reports_single : ∃ es result t,
    Program.Exec FrpServers.serve (reconcile tcpServer.key) FrpServers.single es result t ∧
      result = none ∧ Reports tcpServer.key FrpServers.single t es result := by
  have hexec := Program.exec_run (FrpServers.serve_handle none none (by simp))
    (reconcile tcpServer.key) FrpServers.single
  refine ⟨_, _, _, hexec, rfl, (reconcile_reports_iff _ _ _ _ _ hexec).mpr fun err he => ?_⟩
  have hes : ∃ w stored, (Program.run (FrpServers.handle none none) (reconcile tcpServer.key)
      FrpServers.single).1 = [⟨.get tcpServer.key, .ok tcpServer⟩,
        ⟨.validateFrpServerConfig tcpServer, none⟩, ⟨.now, 1⟩, ⟨.updateStatus w, .ok stored⟩] :=
    ⟨_, _, rfl⟩
  obtain ⟨w, stored, hes⟩ := hes
  rw [hes] at he
  simp at he

def internalError : GoError := .status ⟨.internalError, 500, "an error on the server"⟩

/-- The `FrpServer` exists, the get fails, nothing is stored, and the run returns nil. -/
theorem failed_get_is_swallowed :
    Program.Exec FrpServers.serve (reconcile tcpServer.key) FrpServers.single
      [⟨.get tcpServer.key, .error internalError⟩] none FrpServers.single ∧
    ¬ Reports tcpServer.key FrpServers.single FrpServers.single
      [⟨.get tcpServer.key, .error internalError⟩] none := by
  have hfault : ∀ err ∈ some internalError, err.isNotFound = false := by
    rintro _ ⟨⟩
    decide
  constructor
  · exact Program.exec_run (FrpServers.serve_handle (some internalError) none hfault)
      (reconcile tcpServer.key) FrpServers.single
  · intro h
    exact h.2 internalError List.mem_cons_self (hfault internalError rfl) rfl

end FrpProvisioner
