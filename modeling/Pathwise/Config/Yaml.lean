import Pathwise.Config.Basic
import Pathwise.Files.Tree
import Pathwise.Yaml.Decode
import Pathwise.Yaml.Reader

/-!
# Configurations in YAML

A configuration file has a mapping `checker`, which is laid over the default configuration. What is
set to null counts as not set. Once the mapping itself was given as null, further ones are checked
but do not count.
-/

namespace Pathwise.Config

open Yaml (Decoder)

/-- Decodes thresholds. -/
def yamlThresholds : Decoder Memory.Thresholds :=
  .record (fun _ => empty.thresholds) [
    .of "equivalent" .float (·.equivalent) ({ · with equivalent := · }),
    .of "not_equivalent" .float (·.notEquivalent) ({ · with notEquivalent := · })]

/-- Decodes weights. -/
def yamlWeights : Decoder Weights :=
  .record (fun _ => empty.weights) [
    .of "control_flow" .float (·.controlFlow) (fun (w : Weights) x => { w with controlFlow := x }),
    .of "memory" .float (·.memory) (fun (w : Weights) x => { w with memory := x }),
    .of "transform" .float (·.transform) (fun (w : Weights) x => { w with transform := x })]

/-- Decodes the settings of the oracle. -/
def yamlOracle : Decoder Config :=
  .record (fun c => { c with strategy := empty.strategy, maxSamples := empty.maxSamples }) [
    .of "strategy" .text (·.strategy) ({ · with strategy := · }),
    .of "max_samples" .int (·.maxSamples) ({ · with maxSamples := · })]

/-- Decodes the settings of the cache. -/
def yamlCache : Decoder Config :=
  .record (fun c => { c with cacheEnabled := empty.cacheEnabled, cacheSize := empty.cacheSize }) [
    .of "enabled" .bool (·.cacheEnabled) ({ · with cacheEnabled := · }),
    .of "size" .int (·.cacheSize) ({ · with cacheSize := · })]

/-- Decodes the mapping `checker`. -/
def yamlChecker : Decoder Config :=
  .record (fun _ => empty) [
    .of "workers" .int (·.workers) ({ · with workers := · }),
    .of "comparison_timeout" .text (·.comparisonTimeout) ({ · with comparisonTimeout := · }),
    .of "address_policy" .text (·.addressPolicy) ({ · with addressPolicy := · }),
    .of "ignore_outputs" .bool (·.ignoreOutputs) ({ · with ignoreOutputs := · }),
    .of "thresholds" yamlThresholds (·.thresholds) ({ · with thresholds := · }),
    .of "weights" yamlWeights (·.weights) ({ · with weights := · }),
    ⟨"oracle", yamlOracle⟩,
    ⟨"cache", yamlCache⟩,
    .of "file_pattern" .text (·.filePattern) ({ · with filePattern := · })]

/-- A configuration that is being loaded. It is detached once `checker` was null. -/
structure Loading where
  config : Config
  detached : Bool
  deriving Repr, Inhabited

/-- Whether a node takes the place of the mapping `checker`. Other spellings of null reset it. -/
def detaches : Yaml.Node → Bool
  | .scalar text tag isOpen =>
    Yaml.Kind.ofTag? tag == some .null ||
      (tag.isEmpty && (text == "null" || text == "~" || (text.isEmpty && isOpen)))
  | _ => false

/-- Decodes the mapping `checker` or null in its place. -/
def yamlAttached : Decoder Loading :=
  fun n l =>
    if detaches n then
      Decoder.ofScalar (fun
        | _, .null => some { l with detached := true }
        | _, _ => none) n l
    else do
      let c ← yamlChecker n l.config
      return if l.detached then some l else c.map fun c => { l with config := c }

/-- Decodes a configuration file. -/
def yamlFile : Decoder Loading :=
  .record (fun l => { l with detached := true }) [⟨"checker", yamlAttached⟩]

/-- Why a configuration file is refused. -/
inductive LoadError where
  | unreadable (name : String) (fault : FileFault)
  | malformed (fault : Yaml.Fault)
  | mistyped
  | invalid (error : ConfigError)
  deriving Repr, Inhabited

/-- The wording of an error. Which nodes are mistyped is told on further lines. -/
def LoadError.message : LoadError → String
  | unreadable name f => "failed to read config: " ++ f.message name
  | malformed f => "failed to parse config: " ++ f.message
  | mistyped => "failed to parse config: yaml: unmarshal errors:"
  | invalid e => e.message

/-- The configuration that the text of a file sets. -/
def ofYaml (contents : String) : Except LoadError Config := do
  match ← (Yaml.Tree.ofText contents).mapError .malformed with
  | none => return default
  | some tree =>
    let (l, isMistyped) ← (yamlFile.run tree ⟨default, false⟩).mapError .malformed
    if isMistyped then throw .mistyped else return l.config

/-- Loads a configuration file, and completes and checks the configuration in it. -/
def load (t : FileTree) (name : String) : Except LoadError Config :=
  match t.contentsOf name with
  | .error f => .error (.unreadable name f)
  | .ok contents =>
    match contents.text? with
    | none => .error (.malformed (.anywhere .strayByte))
    | some text => (ofYaml text).bind fun c => c.ready.mapError LoadError.invalid

end Pathwise.Config
