import BranchSelector.Config
import BranchSelector.Json.Shape

/-!
# The configuration as a document

The JSON form of a configuration: a record of records, in which every field may be
absent and then keeps its default.
-/

namespace BranchSelector

open Json Reader

def SelectionMode.options : List (String × SelectionMode) :=
  [SelectionMode.bloom, .oracle, .rawStrength].map fun mode => (mode.name, mode)

def FilterKind.options : List (String × FilterKind) :=
  [FilterKind.bloom, .oracle].map fun kind => (kind.name, kind)

def CorrelatorConfig.shape : Shape CorrelatorConfig where
  name := "CorrelatorConfig"
  initial := {}
  fields := [
    .optional "folded_tag_bits" natural32 fun n c => { c with foldedTagBits := n },
    .optional "counter_bits" natural32 fun n c => { c with counterBits := n },
    .optional "training_counter_bits" natural32 fun n c => { c with trainingCounterBits := n },
    .optional "use_theta" boolean fun b c => { c with useTheta := b },
    .optional "feature_mask" (list boolean) fun bs c => { c with featureMask := bs }]

def FilterConfig.shape : Shape FilterConfig where
  name := "FilterConfig"
  initial := {}
  fields := [
    .optional "kind" (choice FilterKind.options) fun kind c => { c with kind := kind },
    .optional "bits" size fun n c => { c with bits := n },
    .optional "hash_rounds" natural32 fun n c => { c with hashRounds := n }]

def ArbiterConfig.shape : Shape ArbiterConfig where
  name := "ArbiterConfig"
  initial := {}
  fields := [
    .optional "mode" (choice SelectionMode.options) fun mode c => { c with mode := mode },
    .optional "correlator_enabled" boolean fun b c => { c with correlatorEnabled := b }]

def WindowConfig.shape : Shape WindowConfig where
  name := "WindowConfig"
  initial := {}
  fields := [
    .optional "short_window" natural64 fun n c => { c with shortWindow := n },
    .optional "long_window" natural64 fun n c => { c with longWindow := n },
    .optional "long_branch_distance" natural64 fun n c => { c with longBranchDistance := n }]

def ReplayConfig.shape : Shape ReplayConfig where
  name := "DriverConfig"
  initial := {}
  fields := [.optional "resolve_delay" size fun n c => { c with resolveDelay := n }]

def Config.shape : Shape Config where
  name := "CscConfig"
  initial := {}
  fields := [
    .optional "correlator" CorrelatorConfig.shape.reader fun part c =>
      { c with correlator := part },
    .optional "filter" FilterConfig.shape.reader fun part c => { c with filter := part },
    .optional "arbiter" ArbiterConfig.shape.reader fun part c => { c with arbiter := part },
    .optional "windows" WindowConfig.shape.reader fun part c => { c with windows := part },
    .optional "driver" ReplayConfig.shape.reader fun part c => { c with replay := part }]

def Config.ofJson (text : String) : Except Fault Config :=
  Reader.decode Config.shape.reader text

end BranchSelector
