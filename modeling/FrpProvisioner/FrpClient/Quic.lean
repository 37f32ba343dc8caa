import FrpProvisioner.FrpClient.Config
import Mathlib.Algebra.Ring.Int.Defs
import Mathlib.Algebra.Ring.Nat

/-! What the vendored `quic-go` makes of the options of a client before it sends anything: they
are brought into range and written as transport parameters. A number of more than 62 bits has
no encoding there, and the writer panics. -/
namespace FrpProvisioner
namespace Quic

/-- `quicvarint.Len`; the panic carries the message and the number. -/
def varintLen (i : ℕ) : Except String ℕ :=
  if i ≤ 63 then .ok 1
  else if i ≤ 16383 then .ok 2
  else if i ≤ 1073741823 then .ok 4
  else if i ≤ 4611686018427387903 then .ok 8
  else .error ("value doesn't fit into 62 bits: " ++ toString i)

/-- `time.Duration(n) * time.Second`, which wraps around. -/
def seconds (n : ℤ) : ℤ := Int.bmod (n * 1000000000) (2 ^ 64)

def uint64 (n : ℤ) : ℕ := (n % 2 ^ 64).toNat

/-- The fields of `quic.Config` that an frp client sets; times are in nanoseconds. -/
structure Config where
  maxIdleTimeout : ℤ
  maxIncomingStreams : ℤ

def validateConfig (config : Config) : Config :=
  if 2 ^ 60 < config.maxIncomingStreams then { config with maxIncomingStreams := 2 ^ 60 }
  else config

def populateConfig (config : Config) : Config where
  maxIdleTimeout := if config.maxIdleTimeout = 0 then 30000000000 else config.maxIdleTimeout
  maxIncomingStreams :=
    if config.maxIncomingStreams = 0 then 100
    else if config.maxIncomingStreams < 0 then 0
    else config.maxIncomingStreams

/-- `TransportParameters.Marshal`, as far as its numbers come from the options. Each is written
with its length, which is computed first. -/
def marshal (config : Config) : Except String (List ℕ) := do
  let initialMaxStreamsBidi ← varintLen (uint64 config.maxIncomingStreams)
  -- a time is divided with the remainder thrown away, towards zero
  let maxIdleTimeout ← varintLen (uint64 (config.maxIdleTimeout.tdiv 1000000))
  return [initialMaxStreamsBidi, maxIdleTimeout]

/-- What `quic.DialAddr` does with the options once it has a socket and an address. -/
def dialParameters (options : QUICOptions) : Except String (List ℕ) :=
  marshal (populateConfig (validateConfig
    ⟨seconds options.maxIdleTimeout, options.maxIncomingStreams⟩))

/-- An idle timeout of `n` seconds is a number of milliseconds that is not negative. -/
def IdleTimeoutFits (n : ℤ) : Prop := 0 ≤ (seconds n).tdiv 1000000

instance (n : ℤ) : Decidable (IdleTimeoutFits n) :=
  inferInstanceAs (Decidable (0 ≤ (seconds n).tdiv 1000000))

theorem varintLen_ok_iff (i : ℕ) : (∃ n, varintLen i = .ok n) ↔ i < 2 ^ 62 := by
  unfold varintLen
  split_ifs <;> simp <;> omega

theorem seconds_bounds (n : ℤ) : -2 ^ 63 ≤ seconds n ∧ seconds n < 2 ^ 63 := by
  have hlow := Int.le_bmod (x := n * 1000000000) (m := 2 ^ 64) (by decide)
  have hhigh := Int.bmod_lt (x := n * 1000000000) (m := 2 ^ 64) (by decide)
  unfold seconds
  omega

theorem uint64_lt_iff {n : ℤ} (hlow : -2 ^ 63 ≤ n) (hhigh : n < 2 ^ 62) :
    uint64 n < 2 ^ 62 ↔ 0 ≤ n := by
  unfold uint64
  omega

/-- The number of streams always has an encoding. -/
theorem streams_fit (config : Config) :
    uint64 (populateConfig (validateConfig config)).maxIncomingStreams < 2 ^ 62 := by
  unfold uint64 populateConfig validateConfig
  grind

theorem tdiv_bounds {d : ℤ} (hlow : -2 ^ 63 ≤ d) (hhigh : d < 2 ^ 63) :
    -2 ^ 63 ≤ d.tdiv 1000000 ∧ d.tdiv 1000000 < 2 ^ 62 := by
  rcases Int.le_total 0 d with hd | hd
  · rw [Int.tdiv_eq_ediv_of_nonneg hd]
    omega
  · have hneg : d.tdiv 1000000 = -(-d / 1000000) := by
      rw [← Int.tdiv_eq_ediv_of_nonneg (by omega), Int.neg_tdiv, Int.neg_neg]
    rw [hneg]
    omega

theorem marshal_ok_iff (config : Config) : (∃ lens, marshal config = .ok lens) ↔
    uint64 config.maxIncomingStreams < 2 ^ 62 ∧
      uint64 (config.maxIdleTimeout.tdiv 1000000) < 2 ^ 62 := by
  rw [← varintLen_ok_iff, ← varintLen_ok_iff]
  unfold marshal
  cases varintLen (uint64 config.maxIncomingStreams) with
  | error panic => simp [bind, Except.bind]
  | ok streams =>
    cases varintLen (uint64 (config.maxIdleTimeout.tdiv 1000000)) with
    | error panic => simp [bind, Except.bind]
    | ok idle => simp [bind, Except.bind, pure, Except.pure]

/-- The options are written without a panic exactly when the idle timeout fits. A time that
wraps around to zero is taken for one that was not given. -/
theorem dialParameters_ok_iff (options : QUICOptions) :
    (∃ lens, dialParameters options = .ok lens) ↔ IdleTimeoutFits options.maxIdleTimeout := by
  obtain ⟨hlow, hhigh⟩ := seconds_bounds options.maxIdleTimeout
  have hidle : (validateConfig ⟨seconds options.maxIdleTimeout,
      options.maxIncomingStreams⟩).maxIdleTimeout = seconds options.maxIdleTimeout := by
    unfold validateConfig
    split_ifs <;> rfl
  unfold dialParameters IdleTimeoutFits
  rw [marshal_ok_iff, and_iff_right (streams_fit _)]
  unfold populateConfig
  rw [hidle]
  dsimp only
  split_ifs with hzero
  · rw [hzero]
    decide
  · obtain ⟨hq, hq'⟩ := tdiv_bounds hlow hhigh
    exact uint64_lt_iff hq hq'

end Quic
end FrpProvisioner
