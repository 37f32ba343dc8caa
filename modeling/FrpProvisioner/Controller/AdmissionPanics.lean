import FrpProvisioner.Controller.Defaulting
import FrpProvisioner.FrpClient.Walk

/-! Panics of the admission chain. `Default` reads the QUIC options without a look at the
pointer. Once it has returned, the only panic left is that of the QUIC library, which cannot
write a negative idle timeout: the vendored validation refuses the methods for which no login
can be built. -/
namespace FrpProvisioner
open Effect

abbrev Answers (σ : Type) := σ → (i : ProbeRequest) → ProbeResponse i × σ

namespace Probe
variable {env : ProbeEnv}

section Returns
variable {σ : Type} {handle : Answers σ}

end Returns

section Panics

/-- Every Secret exists and has a key pair, and nothing else fails either. -/
abbrev everySecret : Answers Unit := accepting fun _ _ => some keyPair

def Panics (p : Probe Verdict) : Prop := ∃ message, (p.run everySecret ()).2.1 = .error message

/-- What comes after a panic, the deferred calls, hands it on. -/
theorem Panics.bind {p : Probe Verdict} {f : Verdict → Probe Verdict} (h : Panics p)
    (hf : ∀ message, ((f (.error message)).run everySecret ()).2.1 = .error message) :
    Panics (p >>= f) := by
  obtain ⟨message, h⟩ := h
  refine ⟨message, ?_⟩
  rw [Program.run_bind, h]
  exact hf message

end Panics
end Probe

namespace FrpServerValidator
variable {env : ProbeEnv} {spec : FrpServerSpec}

section Chain
variable {quic : Option FrpServerTransportQUIC}

end Chain

section Samples

end Samples
end FrpServerValidator
end FrpProvisioner
