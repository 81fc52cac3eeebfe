import AgentSaas.Sorting
import Mathlib.Algebra.BigOperators.Group.List.Basic
import Mathlib.Data.Rat.Floor

/-! What of the context the parts of a prompt take: estimates for each, brought to the total that the
provider reports. -/

namespace AgentSaas.ContextBreakdown
open Sorting

inductive Accuracy
  | estimated | provider | derived
  deriving DecidableEq, Repr

/-- `children` is empty where the source has none. -/
structure ContextUsageCategory where
  key : String
  name : String
  tokens : Rat
  color : String
  accuracy : Accuracy
  isDeferred : Option Bool
  children : List ContextUsageCategory

structure MemoryFile where
  path : String
  type : String
  tokens : Rat

structure McpTool where
  name : String
  serverName : String
  tokens : Rat
  isLoaded : Option Bool

structure ContextUsageBreakdown where
  estimatedTokens : Rat
  providerInputTokens : Option Rat
  providerContextTokens : Option Rat
  unattributedTokens : Rat
  categories : List ContextUsageCategory
  memoryFiles : Option (List MemoryFile)
  mcpTools : Option (List McpTool)
  capturedAt : Option String

structure ModelUsage where
  inputTokens : Option Rat
  outputTokens : Option Rat
  cacheReadInputTokens : Option Rat
  cacheCreationInputTokens : Option Rat

/-- `Math.max(0, Math.floor(value))` -/
def wholeTokens (value : Rat) : Int := max 0 ⌊value⌋

structure Remainder where
  index : Nat
  fraction : Rat

/-- `right.fraction - left.fraction || left.index - right.index` -/
def remainderOrder : Comparator Remainder :=
  ((Comparator.ofLinearOrder Rat).onKey fun entry => -entry.fraction).andThen
    (Comparator.numbers.onKey fun entry => (entry.index : Int))

/-- `allocated[index] += 1` -/
def increment (allocated : List Int) (index : Nat) : Option (List Int) :=
  allocated[index]?.map fun tokens => allocated.set index (tokens + 1)

def exactValues (weights : List Int) (target : Int) : List Rat :=
  weights.map fun (weight : Int) => (weight : Rat) / weights.sum * target

/-- Nothing, where an index is out of range. -/
def allocateProportionalTokens (weights : List Rat) (targetTotal : Rat) : Option (List Int) :=
  let normalizedWeights := weights.map wholeTokens
  let target := wholeTokens targetTotal
  if normalizedWeights.sum = 0 ∨ target = 0 then some (normalizedWeights.map fun _ => 0)
  else
    let exact := exactValues normalizedWeights target
    let allocated := exact.map fun value => ⌊value⌋
    let remainder := target - allocated.sum
    let order := remainderOrder.sort (exact.mapIdx fun index value => ⟨index, value - ⌊value⌋⟩)
    (List.range remainder.toNat).foldlM (fun allocated index => order[index]?.bind fun entry => increment allocated entry.index)
      allocated

mutual

def calibrateCategory (tokens : Int) : ContextUsageCategory → Option ContextUsageCategory
  | ⟨key, name, _, color, accuracy, isDeferred, []⟩ => some ⟨key, name, tokens, color, accuracy, isDeferred, []⟩
  | ⟨key, name, _, color, accuracy, isDeferred, first :: rest⟩ =>
    (allocateProportionalTokens (first.tokens :: rest.map (·.tokens)) tokens).bind fun allocated =>
      (calibrateEach allocated (first :: rest)).map fun children => ⟨key, name, tokens, color, accuracy, isDeferred, children⟩

/-- `categories.map((item, index) => ...)`, with `allocated[index]`. -/
def calibrateEach : List Int → List ContextUsageCategory → Option (List ContextUsageCategory)
  | tokens :: allocated, item :: rest =>
    (calibrateCategory tokens item).bind fun first => (calibrateEach allocated rest).map (first :: ·)
  | _, _ => some []

end

def calibrateCategories (categories : List ContextUsageCategory) (targetTotal : Rat) : Option (List ContextUsageCategory) :=
  (allocateProportionalTokens (categories.map (·.tokens)) targetTotal).bind fun allocated => calibrateEach allocated categories

/-- `set` writes the tokens of an item. -/
def calibrateTokenItems {α : Type} (tokens : α → Rat) (set : α → Rat → α) (items : List α) (targetTotal : Rat) : Option (List α) :=
  (allocateProportionalTokens (items.map tokens) targetTotal).map fun allocated =>
    items.zipWith (fun item (count : Int) => set item count) allocated

def assistantOutput (outputTokens : Int) : ContextUsageCategory :=
  ⟨"current_assistant_output", "本轮 Agent 输出", outputTokens, "#06B6D4", .provider, none, []⟩

def unattributed (tokens : Int) : ContextUsageCategory :=
  ⟨"unattributed", "协议及未归因开销", tokens, "#94A3B8", .derived, none, []⟩

/-- `usage?.outputTokens ?? 0`, in whole tokens. -/
def outputTokensOf (usage : ModelUsage) : Int := wholeTokens (usage.outputTokens.getD 0)

def providerContextTokensOf (usage : ModelUsage) (providerInputTokens : Rat) (currentContextTokens : Option Rat) : Int :=
  let cacheRead := usage.cacheReadInputTokens.getD 0
  wholeTokens (currentContextTokens.getD
    (max 0 (providerInputTokens - cacheRead) + cacheRead + usage.cacheCreationInputTokens.getD 0 + usage.outputTokens.getD 0))

def estimatedCategories (breakdown : ContextUsageBreakdown) : List ContextUsageCategory :=
  breakdown.categories.filter fun item => item.key ≠ "current_assistant_output" ∧ item.key ≠ "unattributed"

def calibrateEstimated (estimated : List ContextUsageCategory) (providerContextInputTokens : Int) :
    Option (List ContextUsageCategory) :=
  if 0 < (estimated.map (·.tokens)).sum then calibrateCategories estimated providerContextInputTokens else some []

/-- The output of this turn and what is put down to no category, behind the calibrated ones. -/
def withProvided (calibrated : List ContextUsageCategory) (outputTokens unattributedTokens : Int) : List ContextUsageCategory :=
  calibrated ++ ((if 0 < outputTokens then [assistantOutput outputTokens] else []) ++
    if 0 < unattributedTokens then [unattributed unattributedTokens] else [])

def calibratedMemoryTokens (categories : List ContextUsageCategory) : Rat :=
  ((categories.find? (·.key = "memory")).map (·.tokens)).getD 0

def calibratedMcpTokens (categories : List ContextUsageCategory) : Rat :=
  let mcp := (categories.find? (·.key = "tool_definitions")).bind fun item =>
    item.children.find? (·.key = "tool_definitions_mcp")
  (mcp.map (·.tokens)).getD 0

def calibrateContextBreakdown (breakdown : ContextUsageBreakdown) (usage : Option ModelUsage) (currentContextTokens : Option Rat) :
    Option ContextUsageBreakdown :=
  match usage.bind fun usage => usage.inputTokens.map fun inputTokens => (usage, inputTokens) with
  | none => some breakdown
  | some (usage, providerInputTokens) => do
    let providerContextTokens := providerContextTokensOf usage providerInputTokens currentContextTokens
    let outputTokens := outputTokensOf usage
    let providerContextInputTokens : Int := max 0 (providerContextTokens - outputTokens)
    let estimated := estimatedCategories breakdown
    let estimatedCategoryTotal : Rat := (estimated.map (·.tokens)).sum
    let calibrated ← calibrateEstimated estimated providerContextInputTokens
    let unattributedTokens : Int := if 0 < estimatedCategoryTotal then 0 else providerContextInputTokens
    let categories := withProvided calibrated outputTokens unattributedTokens
    let memoryFiles ← calibrateTokenItems MemoryFile.tokens (fun item tokens => { item with tokens := tokens })
      (breakdown.memoryFiles.getD []) (calibratedMemoryTokens categories)
    let mcpTools ← calibrateTokenItems McpTool.tokens (fun item tokens => { item with tokens := tokens })
      (breakdown.mcpTools.getD []) (calibratedMcpTokens categories)
    return { breakdown with
      providerInputTokens := some providerInputTokens
      providerContextTokens := some providerContextTokens
      unattributedTokens := unattributedTokens
      categories := categories
      memoryFiles := some memoryFiles
      mcpTools := some mcpTools }

end AgentSaas.ContextBreakdown
