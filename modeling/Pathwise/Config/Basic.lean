import Pathwise.Comparison.Aggregate
import Pathwise.Document
import Pathwise.Json.Decode
import Pathwise.Oracle.Sampling
import Pathwise.Session.Basic

/-!
# Configuration

What a user can set, as it is written. A configuration is completed by the default values, checked,
and then turned into the settings of a session.
-/

namespace Pathwise

open Text (Raw)

/-- The thresholds and weights are kept together: they are completed as a whole. -/
structure Config where
  workers : Int
  comparisonTimeout : Raw
  addressPolicy : Raw
  ignoreOutputs : Bool
  thresholds : Memory.Thresholds
  weights : Weights
  strategy : Raw
  maxSamples : Int
  cacheEnabled : Bool
  cacheSize : Int
  filePattern : Raw
  deriving Repr, Inhabited

/-- Why a configuration is refused. -/
inductive ConfigError where
  | workers (n : Int)
  | timeout (text : Raw) (fault : Duration.Fault)
  | addressPolicy (text : Raw)
  | thresholds (notEquivalent equivalent : Float)
  | weights
  | strategy (text : Raw)
  | cacheSize
  deriving Repr, Inhabited

/-- The wording of an error. -/
def ConfigError.message : ConfigError → String
  | workers n => "workers must not be negative, got " ++ toString n
  | timeout s f => "invalid comparison_timeout " ++ s.quoted ++ ": " ++ f.message s
  | addressPolicy s => "invalid address_policy " ++ s.quoted ++ " (want relative or absolute)"
  | thresholds lo hi =>
    "invalid thresholds: need 0 <= not_equivalent < equivalent <= 1, got " ++
      Decimal.fixed 2 lo ++ "/" ++ Decimal.fixed 2 hi
  | weights => "invalid weights: must be non-negative with a positive sum"
  | strategy s => "invalid oracle strategy " ++ s.quoted
  | cacheSize => "cache size must be positive when the cache is enabled"

namespace Config

/-- The default configuration. -/
def default : Config where
  workers := 8
  comparisonTimeout := "2s"
  addressPolicy := "relative"
  ignoreOutputs := false
  thresholds := .default
  weights := .default
  strategy := "none"
  maxSamples := 512
  cacheEnabled := true
  cacheSize := 4096
  filePattern := ""

/-- A configuration in which nothing is set. -/
def empty : Config where
  workers := 0
  comparisonTimeout := ""
  addressPolicy := ""
  ignoreOutputs := false
  thresholds := ⟨0, 0⟩
  weights := ⟨0, 0, 0⟩
  strategy := ""
  maxSamples := 0
  cacheEnabled := false
  cacheSize := 0
  filePattern := ""

/-- The default where nothing is set. -/
def orDefault {α : Type} [BEq α] (unset : α) (value fallback : α) : α :=
  if value == unset then fallback else value

/-- Whether no threshold is set. -/
def thresholdsUnset (t : Memory.Thresholds) : Bool :=
  t.equivalent == 0 && t.notEquivalent == 0

/-- Whether no weight is set. -/
def weightsUnset (w : Weights) : Bool :=
  w.controlFlow == 0 && w.memory == 0 && w.transform == 0

/-- Completes what is not set by the default values. -/
def complete (c : Config) : Config :=
  { c with
    workers := orDefault 0 c.workers default.workers
    comparisonTimeout := orDefault ⟨[]⟩ c.comparisonTimeout default.comparisonTimeout
    addressPolicy := orDefault ⟨[]⟩ c.addressPolicy default.addressPolicy
    thresholds := if thresholdsUnset c.thresholds then default.thresholds else c.thresholds
    weights := if weightsUnset c.weights then default.weights else c.weights
    strategy := orDefault ⟨[]⟩ c.strategy default.strategy
    maxSamples := orDefault 0 c.maxSamples default.maxSamples
    cacheSize := orDefault 0 c.cacheSize default.cacheSize }

/-- Whether thresholds are out of order or out of range. -/
def badThresholds (t : Memory.Thresholds) : Bool :=
  t.notEquivalent < 0 || t.equivalent > 1 || t.notEquivalent ≥ t.equivalent

/-- Whether weights are negative or have no positive sum. -/
def badWeights (w : Weights) : Bool :=
  w.controlFlow < 0 || w.memory < 0 || w.transform < 0 || w.sum ≤ 0

/-- The strategies that can be set. -/
def strategies : List String :=
  ["none", "sampling", "z3", "hybrid"]

/-- The policy that is set. -/
def policy? (c : Config) : Option AddressPolicy :=
  c.addressPolicy.text?.bind AddressPolicy.ofName?

/-- Checks a configuration. The first thing that is wrong is reported. -/
def validate (c : Config) : Except ConfigError Unit := do
  if c.workers < 0 then throw (.workers c.workers)
  match Duration.parse c.comparisonTimeout with
  | .error f => throw (.timeout c.comparisonTimeout f)
  | .ok _ => pure ()
  if c.policy?.isNone then throw (.addressPolicy c.addressPolicy)
  if badThresholds c.thresholds then
    throw (.thresholds c.thresholds.notEquivalent c.thresholds.equivalent)
  if badWeights c.weights then throw .weights
  if !c.strategy.text?.any strategies.contains then throw (.strategy c.strategy)
  if c.cacheEnabled && c.cacheSize ≤ 0 then throw .cacheSize

/-- The timeout that is meant. What is no positive duration stands for two seconds. -/
def timeout (c : Config) : Duration :=
  match Duration.parse c.comparisonTimeout with
  | .ok d => if d.nanoseconds > 0 then d else ⟨2 * 10 ^ 9⟩
  | .error _ => ⟨2 * 10 ^ 9⟩

/-- The oracle of a complete configuration. -/
def oracle (rng : Sampling.Generator) (c : Config) : Option Oracle :=
  match c.strategy.text?.map (Oracle.ofStrategy rng · c.maxSamples) with
  | some (.ok o) => o
  | _ => none

/-- The settings that a complete configuration stands for. -/
def settings (rng : Sampling.Generator) (sorter : Sorter) (c : Config) : Settings where
  policy := c.policy?.getD .relative
  thresholds := c.thresholds
  weights := c.weights
  ignoreOutputs := c.ignoreOutputs
  timeout := c.timeout
  oracle := c.oracle rng
  cacheSize := if c.cacheEnabled then some c.cacheSize.toNat else none
  sorter

/-- Completes and checks a configuration. -/
def ready (c : Config) : Except ConfigError Config := do
  let c := c.complete
  c.validate
  return c

/-! ### JSON -/

open Json (Decoder)

/-- Decodes a text. -/
def textDecoder : Decoder Raw :=
  .spelled fun s => some (Raw.ofString s)

/-- Decodes thresholds. -/
def thresholdsDecoder : Decoder Memory.Thresholds :=
  .record [
    .of "equivalent" .float (·.equivalent) ({ · with equivalent := · }),
    .of "not_equivalent" .float (·.notEquivalent) ({ · with notEquivalent := · })]

/-- Decodes weights by their names in configurations. -/
def weightsDecoder : Decoder Weights :=
  .record [
    .of "control_flow" .float (·.controlFlow) (fun (w : Weights) x => { w with controlFlow := x }),
    .of "memory" .float (·.memory) (fun (w : Weights) x => { w with memory := x }),
    .of "transform" .float (·.transform) (fun (w : Weights) x => { w with transform := x })]

/-- Decodes the settings of the oracle. -/
def oracleDecoder : Decoder Config :=
  .record [
    .of "strategy" textDecoder (·.strategy) ({ · with strategy := · }),
    .of "max_samples" .int (·.maxSamples) ({ · with maxSamples := · })]

/-- Decodes the settings of the cache. -/
def cacheDecoder : Decoder Config :=
  .record [
    .of "enabled" .bool (·.cacheEnabled) ({ · with cacheEnabled := · }),
    .of "size" .int (·.cacheSize) ({ · with cacheSize := · })]

/-- Decodes a configuration. -/
def decoder : Decoder Config :=
  .record [
    .of "workers" .int (·.workers) ({ · with workers := · }),
    .of "comparison_timeout" textDecoder (·.comparisonTimeout) ({ · with comparisonTimeout := · }),
    .of "address_policy" textDecoder (·.addressPolicy) ({ · with addressPolicy := · }),
    .of "ignore_outputs" .bool (·.ignoreOutputs) ({ · with ignoreOutputs := · }),
    .of "thresholds" thresholdsDecoder (·.thresholds) ({ · with thresholds := · }),
    .of "weights" weightsDecoder (·.weights) ({ · with weights := · }),
    ⟨"oracle", oracleDecoder⟩,
    ⟨"cache", cacheDecoder⟩,
    .of "file_pattern" textDecoder (·.filePattern) ({ · with filePattern := · })]

end Config

end Pathwise
