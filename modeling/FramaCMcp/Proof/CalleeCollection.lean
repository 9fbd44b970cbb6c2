/-
This file proves when an extracted file declares no function without a frame.
-/

import FramaCMcp.Construction.CalleeCollection
import FramaCMcp.Foundation.GraphSearch
import FramaCMcp.Foundation.FirstMatch

namespace FramaCMcp.CalleeCollection

open DepthFirst Fixpoint Relation

variable (file : CilFile) (target : Nat)

/-- A function and a global variable are marked in tables of their own. -/
inductive Item where
  | fn (vid : Nat)
  | var (vid : Nat)
  deriving DecidableEq

/-- The visitor of an initializer follows these visits. -/
def initItem : Visit → Option Item
  | .lval vid =>
      if file.vglob vid && vid != target && file.isFun vid then some (.fn vid)
      else if file.vglob vid && vid != target then some (.var vid)
      else none
  | .vrbl _ => none

def bodyItem : Visit → Option Item
  | .vrbl vid => if file.vglob vid && file.isFun vid && vid != target then some (.fn vid) else none
  | .lval vid =>
      if file.vglob vid && file.isFun vid && vid != target then some (.fn vid)
      else if file.vglob vid then some (.var vid)
      else none

/-- The initializer of a variable is the one at its first declaration. -/
def CilFile.initOf (vid : Nat) : List Visit :=
  match findGlobalVar file vid with
  | some (.var _ (some init)) => init
  | _ => []

/-- These items stand in the initializer of a variable. -/
def next : Item → List Item
  | .fn _ => []
  | .var vid => (file.initOf vid).filterMap (initItem file target)

/-- Initializers lead from one item to another. -/
def LeadsTo : Item → Item → Prop := ReflTransGen fun item later => later ∈ next file target item

variable {file target}

theorem leadsTo_fn {vid : Nat} {item : Item} (leads : LeadsTo file target (.fn vid) item) :
    item = .fn vid := by
  rcases leads.cases_head with same | ⟨later, edge, _⟩
  · exact same.symm
  · cases edge

variable (file target)

/-- A function that a contract mentions is recorded. -/
def Mentions (mentions : List Nat) (vid : Nat) : Prop :=
  vid ∈ mentions ∧ file.vglob vid = true ∧ file.isFun vid = true

def Spec.Mentions (spec : Spec) (vid : Nat) : Prop :=
  spec.isEmpty = false ∧ CalleeCollection.Mentions file spec.mentions vid

/-- The contract of the callee mentions the function. -/
def CalleeMentions (callee vid : Nat) : Prop :=
  ∃ kf, resolveCallee file callee = some kf ∧ kf.spec.Mentions file vid

def stubOf (kf : KernelFunction) : List FunGlobal :=
  .function kf.vid true :: if kf.spec.isEmpty then [] else [.decl kf.spec kf.vid]

/-- The visitor of the body emits these functions for a callee. -/
def bodyEmission (callee : Nat) : List FunGlobal :=
  match resolveCallee file callee with
  | none => []
  | some kf =>
      if kf.spec.hasAssigns then
        if kf.isDefinition then [.function kf.vid false] else [.decl kf.spec kf.vid]
      else stubOf kf

/-- The visitor of an initializer emits these functions for a callee. -/
def initEmission (callee : Nat) : List FunGlobal :=
  match resolveCallee file callee with
  | none => [.decl .none callee]
  | some kf => if kf.isDefinition then stubOf kf else [.decl kf.spec kf.vid]

def Collected.Marks (col : Collected) : Item → Prop
  | .fn vid => vid ∈ col.funVids
  | .var vid => vid ∈ col.varVids

def Collected.marked (col : Collected) : Set Item := Set.ofPred col.Marks

section Contracts

variable {file}

theorem mem_mark {vid other : Nat} {vids : List Nat} :
    other ∈ mark vid vids ↔ other ∈ vids ∨ other = vid := by
  rw [mark]
  split_ifs with known
  · constructor
    · exact .inl
    · rintro (old | rfl)
      · exact old
      · exact List.contains_iff_mem.mp known
  · rw [List.mem_cons, or_comm]

/-- Contracts change only the tables of what they mention. -/
structure MentionsStep (named : Nat → Prop) (before after : Collected) : Prop where
  varVids : after.varVids = before.varVids
  funVids : after.funVids = before.funVids
  funs : after.funs = before.funs
  decls : ∀ vid, vid ∈ after.funDeclVids ↔ vid ∈ before.funDeclVids ∨ named vid

theorem MentionsStep.trans {early late : Nat → Prop} {first second third : Collected}
    (before : MentionsStep early first second) (after : MentionsStep late second third) :
    MentionsStep (fun vid => early vid ∨ late vid) first third where
  varVids := after.varVids.trans before.varVids
  funVids := after.funVids.trans before.funVids
  funs := after.funs.trans before.funs
  decls := fun vid => by rw [after.decls, before.decls, or_assoc]

theorem MentionsStep.congr {named others : Nat → Prop} {before after : Collected}
    (step : MentionsStep named before after) (same : ∀ vid, named vid ↔ others vid) :
    MentionsStep others before after :=
  ⟨step.varVids, step.funVids, step.funs, fun vid => by rw [step.decls, same]⟩

theorem MentionsStep.refl (col : Collected) : MentionsStep (fun _ => False) col col :=
  ⟨rfl, rfl, rfl, fun _ => (or_false _).symm.to_iff⟩

theorem mentionsStep_varinfo (vid : Nat) (col : Collected) :
    MentionsStep (Mentions file [vid]) col (collectAcslVarinfo file vid col) := by
  rw [collectAcslVarinfo]
  split_ifs with glob function
  · refine ⟨rfl, rfl, rfl, fun other => ?_⟩
    rw [mem_mark, Mentions, List.mem_singleton]
    constructor
    · rintro (old | rfl)
      · exact .inl old
      · exact .inr ⟨rfl, glob, function⟩
    · rintro (old | ⟨same, _⟩)
      · exact .inl old
      · exact .inr same
  · refine ⟨rfl, rfl, rfl, fun other => (or_iff_left ?_).symm⟩
    rintro ⟨member, _, isFun⟩
    rw [List.mem_singleton.mp member] at isFun
    exact function isFun
  · refine ⟨rfl, rfl, rfl, fun other => (or_iff_left ?_).symm⟩
    rintro ⟨member, global, _⟩
    rw [List.mem_singleton.mp member] at global
    exact glob global

theorem mentionsStep_mentions (mentions : List Nat) (col : Collected) :
    MentionsStep (Mentions file mentions) col (collectMentions file mentions col) := by
  induction mentions generalizing col with
  | nil => exact (MentionsStep.refl col).congr fun vid => by simp [Mentions]
  | cons first rest ih =>
      apply ((mentionsStep_varinfo first col).trans (ih _)).congr
      intro vid
      simp only [Mentions, List.mem_cons, List.not_mem_nil, or_false]
      tauto

theorem mentionsStep_funspec (spec : Spec) (col : Collected) :
    MentionsStep (spec.Mentions file) col (collectFunspec file spec col) := by
  rw [collectFunspec]
  split_ifs with empty
  · exact (MentionsStep.refl col).congr fun vid => by simp [Spec.Mentions, empty]
  · exact (mentionsStep_mentions spec.mentions col).congr fun vid => by
      simp [Spec.Mentions, Bool.not_eq_true _ ▸ empty]

def AnnotMentions (file : CilFile) (globals : List Global) (vid : Nat) : Prop :=
  ∃ mentions, .annot mentions ∈ globals ∧ Mentions file mentions vid

theorem mentionsStep_annotations (col : Collected) :
    MentionsStep (AnnotMentions file file.globals) col (collectGlobalAnnotations file col) := by
  rw [collectGlobalAnnotations]
  induction file.globals generalizing col with
  | nil => exact (MentionsStep.refl col).congr fun vid => by simp [AnnotMentions]
  | cons first rest ih =>
      rw [List.foldl_cons]
      cases first with
      | annot mentions =>
          apply ((mentionsStep_mentions mentions col).trans (ih _)).congr
          intro vid
          simp [AnnotMentions, or_and_right, exists_or]
      | _ =>
          apply (ih _).congr
          intro vid
          simp [AnnotMentions]

end Contracts

section Emission

/-- The functions that are marked on the way are emitted by the rule. -/
structure Emits (file : CilFile) (rule : Nat → List FunGlobal) (before after : Collected) :
    Prop where
  kept : before.marked ⊆ after.marked
  funs : ∀ emitted, emitted ∈ after.funs ↔ emitted ∈ before.funs ∨
    ∃ vid, .fn vid ∈ after.marked \ before.marked ∧ emitted ∈ rule vid
  decls : ∀ named, named ∈ after.funDeclVids ↔ named ∈ before.funDeclVids ∨
    ∃ vid, .fn vid ∈ after.marked \ before.marked ∧ CalleeMentions file vid named

variable {file} {rule : Nat → List FunGlobal} {first second third : Collected}

/-- What is new on the way is new on one of its two parts. -/
theorem exists_new_trans {Index Element : Type} {small middle large : Set Element}
    (lower : small ⊆ middle) (upper : middle ⊆ large) (element : Index → Element)
    (holds : Index → Prop) :
    (∃ index, element index ∈ large \ small ∧ holds index) ↔
      (∃ index, element index ∈ middle \ small ∧ holds index) ∨
        ∃ index, element index ∈ large \ middle ∧ holds index := by
  constructor
  · rintro ⟨index, ⟨inside, new⟩, given⟩
    by_cases early : element index ∈ middle
    · exact .inl ⟨index, ⟨early, new⟩, given⟩
    · exact .inr ⟨index, ⟨inside, early⟩, given⟩
  · rintro (⟨index, ⟨inside, new⟩, given⟩ | ⟨index, ⟨inside, new⟩, given⟩)
    · exact ⟨index, ⟨upper inside, new⟩, given⟩
    · exact ⟨index, ⟨inside, fun old => new (lower old)⟩, given⟩

theorem Emits.refl (col : Collected) : Emits file rule col col where
  kept := subset_rfl
  funs := fun _ => (or_iff_left (by rintro ⟨_, ⟨inside, new⟩, _⟩; exact new inside)).symm
  decls := fun _ => (or_iff_left (by rintro ⟨_, ⟨inside, new⟩, _⟩; exact new inside)).symm

theorem Emits.trans (early : Emits file rule first second) (late : Emits file rule second third) :
    Emits file rule first third where
  kept := early.kept.trans late.kept
  funs := fun emitted => by
    rw [late.funs, early.funs, or_assoc, exists_new_trans early.kept late.kept]
  decls := fun named => by
    rw [late.decls, early.decls, or_assoc, exists_new_trans early.kept late.kept]

/-- A mark on a variable emits nothing. -/
theorem Emits.of_var {vid : Nat}
    (emits : Emits file rule { first with varVids := vid :: first.varVids } second) :
    Emits file rule first second where
  kept := by
    rintro (other | other) old
    · exact emits.kept (a := .fn other) old
    · exact emits.kept (a := .var other) (List.mem_cons_of_mem _ old)
  funs := emits.funs
  decls := emits.decls

theorem marked_fn (vid : Nat) (col : Collected) :
    ({ col with funVids := vid :: col.funVids } : Collected).marked =
      insert (.fn vid) col.marked := by
  ext item
  change Collected.Marks _ item ↔ item = _ ∨ col.Marks item
  cases item <;> simp [Collected.Marks]

theorem marked_var (vid : Nat) (col : Collected) :
    ({ col with varVids := vid :: col.varVids } : Collected).marked =
      insert (.var vid) col.marked := by
  ext item
  change Collected.Marks _ item ↔ item = _ ∨ col.Marks item
  cases item <;> simp [Collected.Marks]

/-- The handler of a callee emits it and records what its contract mentions. -/
structure EmitsCallee (file : CilFile) (rule : Nat → List FunGlobal) (vid : Nat)
    (before after : Collected) : Prop where
  varVids : after.varVids = before.varVids
  funVids : after.funVids = before.funVids
  funs : ∀ emitted, emitted ∈ after.funs ↔ emitted ∈ before.funs ∨ emitted ∈ rule vid
  decls : ∀ named, named ∈ after.funDeclVids ↔
    named ∈ before.funDeclVids ∨ CalleeMentions file vid named

/-- The contract is read before the callee is emitted. -/
theorem EmitsCallee.of_mentions {vid : Nat} {kf : KernelFunction}
    (found : resolveCallee file vid = some kf)
    (step : MentionsStep (kf.spec.Mentions file) first second) (funs : List FunGlobal)
    (emitted : ∀ global, global ∈ funs ↔ global ∈ first.funs ∨ global ∈ rule vid) :
    EmitsCallee file rule vid first { second with funs } where
  varVids := step.varVids
  funVids := step.funVids
  funs := emitted
  decls := fun named => by
    rw [step.decls, CalleeMentions, found]
    simp

theorem mem_stub {kf : KernelFunction} {funs : List FunGlobal} {global : FunGlobal} :
    global ∈ FunGlobal.function kf.vid true ::
        (if kf.spec.isEmpty then funs else .decl kf.spec kf.vid :: funs) ↔
      global ∈ funs ∨ global ∈ stubOf kf := by
  rw [stubOf]
  split_ifs <;> simp only [List.mem_cons, List.not_mem_nil, or_false] <;> tauto

theorem emitsCallee_collectCallee (vid : Nat) (col : Collected) :
    EmitsCallee file (bodyEmission file) vid col (collectCallee file vid col) := by
  rw [collectCallee]
  cases found : resolveCallee file vid with
  | none =>
      refine ⟨rfl, rfl, fun emitted => ?_, fun named => ?_⟩
      · simp [bodyEmission, found]
      · simp [CalleeMentions, found]
  | some kf =>
      have step : MentionsStep (kf.spec.Mentions file) col _ := mentionsStep_funspec kf.spec col
      dsimp only
      split_ifs with assigns defined
      · apply EmitsCallee.of_mentions found step
        simp [bodyEmission, found, assigns, defined, step.funs, or_comm]
      · apply EmitsCallee.of_mentions found step
        simp [bodyEmission, found, assigns, defined, step.funs, or_comm]
      · apply EmitsCallee.of_mentions found step
        simp only [bodyEmission, found, assigns, step.funs]
        exact fun global => mem_stub

theorem emitsCallee_collectInitCallee (vid : Nat) (col : Collected) :
    EmitsCallee file (initEmission file) vid col (collectInitCallee file vid col) := by
  rw [collectInitCallee]
  cases found : resolveCallee file vid with
  | none =>
      refine ⟨rfl, rfl, fun emitted => ?_, fun named => ?_⟩
      · simp [initEmission, found, or_comm]
      · simp [CalleeMentions, found]
  | some kf =>
      have step : MentionsStep (kf.spec.Mentions file) col _ := mentionsStep_funspec kf.spec col
      dsimp only
      split_ifs with defined
      · apply EmitsCallee.of_mentions found step
        simp only [initEmission, found, defined, step.funs]
        exact fun global => mem_stub
      · apply EmitsCallee.of_mentions found step
        simp [initEmission, found, defined, step.funs, or_comm]

variable {emit : Nat → Collected → Collected}

theorem emits_once (callee : ∀ vid col, EmitsCallee file rule vid col (emit vid col)) (vid : Nat)
    (col : Collected) : Emits file rule col (collectOnce emit vid col) ∧
      (collectOnce emit vid col).marked = insert (.fn vid) col.marked := by
  rw [collectOnce]
  split_ifs with known
  · refine ⟨.refl col, (Set.insert_eq_of_mem ?_).symm⟩
    exact List.contains_iff_mem.mp known
  · have new : .fn vid ∉ col.marked := fun member => known (List.contains_iff_mem.mpr member)
    have step := callee vid { col with funVids := vid :: col.funVids }
    have marked : (emit vid { col with funVids := vid :: col.funVids }).marked =
        insert (.fn vid) col.marked := by
      rw [← marked_fn]
      ext item
      change Collected.Marks _ item ↔ Collected.Marks _ item
      cases item with
      | fn other => rw [Collected.Marks, step.funVids]; rfl
      | var other => rw [Collected.Marks, step.varVids]; rfl
    have alone : ∀ holds : Nat → Prop, (∃ other, .fn other ∈
        (emit vid { col with funVids := vid :: col.funVids }).marked \ col.marked ∧ holds other) ↔
          holds vid := by
      intro holds
      rw [marked]
      constructor
      · rintro ⟨other, ⟨same | old, fresh⟩, given⟩
        · exact Item.fn.inj same ▸ given
        · exact absurd old fresh
      · exact fun given => ⟨vid, ⟨Set.mem_insert _ _, new⟩, given⟩
    refine ⟨⟨?_, fun emitted => ?_, fun named => ?_⟩, marked⟩
    · rw [marked]
      exact Set.subset_insert _ _
    · rw [alone, step.funs]
    · rw [alone, step.decls]

end Emission

section Initializers

/-- The walk keeps what is closed and marks what the items lead to. -/
structure Walks (items : List Item) (before after : Collected) : Prop where
  emits : Emits file (initEmission file) before after
  closed : ∀ unfinished, ClosedExcept (next file target) unfinished before.marked →
    ClosedExcept (next file target) unfinished after.marked
  covered : ∀ item ∈ items, item ∈ after.marked
  sound : ∀ item ∈ after.marked, item ∈ before.marked ∨
    ∃ source ∈ items, LeadsTo file target source item

variable {file target} {first second third : Collected}

theorem Walks.refl (col : Collected) : Walks file target [] col col :=
  ⟨.refl col, fun _ => id, nofun, fun _ => .inl⟩

theorem Walks.trans {items others : List Item} (early : Walks file target items first second)
    (late : Walks file target others second third) :
    Walks file target (items ++ others) first third where
  emits := early.emits.trans late.emits
  closed := fun unfinished => late.closed unfinished ∘ early.closed unfinished
  covered := by
    intro item member
    rcases List.mem_append.mp member with own | other
    · exact late.emits.kept (early.covered item own)
    · exact late.covered item other
  sound := by
    intro item marked
    rcases late.sound item marked with between | ⟨source, member, leads⟩
    · rcases early.sound item between with old | ⟨source, member, leads⟩
      · exact .inl old
      · exact .inr ⟨source, List.mem_append_left _ member, leads⟩
    · exact .inr ⟨source, List.mem_append_right _ member, leads⟩

theorem Walks.of_marked {item : Item} (marked : item ∈ first.marked) :
    Walks file target [item] first first where
  emits := .refl first
  closed := fun _ => id
  covered := fun _ member => List.mem_singleton.mp member ▸ marked
  sound := fun _ => .inl

theorem walks_fn (vid : Nat) (col : Collected) :
    Walks file target [.fn vid] col (collectOnce (collectInitCallee file) vid col) := by
  obtain ⟨emits, marked⟩ := emits_once emitsCallee_collectInitCallee vid col
  refine ⟨emits, fun unfinished closed => ?_, fun item member => ?_, fun item member => ?_⟩
  · rw [marked]
    exact closed.insert_of_nil rfl
  · rw [marked, List.mem_singleton.mp member]
    exact Set.mem_insert _ _
  · rw [marked] at member
    rcases member with same | old
    · exact .inr ⟨.fn vid, List.mem_singleton_self _, same ▸ .refl⟩
    · exact .inl old

/-- A variable is marked and its initializer is walked. -/
theorem walks_var {vid : Nat} {col later : Collected}
    (init : Walks file target (next file target (.var vid))
      { col with varVids := vid :: col.varVids } later) :
    Walks file target [.var vid] col later where
  emits := init.emits.of_var
  closed := by
    intro unfinished closed
    have marked := closed.mark (.var vid)
    rw [← marked_var] at marked
    exact (init.closed _ marked).finish init.covered
  covered := by
    intro item member
    rw [List.mem_singleton.mp member]
    exact init.emits.kept (a := .var vid) List.mem_cons_self
  sound := by
    intro item marked
    rcases init.sound item marked with old | ⟨source, member, leads⟩
    · rw [marked_var] at old
      rcases old with same | old
      · exact .inr ⟨.var vid, List.mem_singleton_self _, same ▸ .refl⟩
      · exact .inl old
    · exact .inr ⟨.var vid, List.mem_singleton_self _, .head member leads⟩

/-- The recursive calls walk the items of their initializer. -/
def InitWalks (file : CilFile) (target : Nat)
    (visitInit : List Visit → Collected → Option Collected) : Prop :=
  ∀ init col later, visitInit init col = some later →
    Walks file target (init.filterMap (initItem file target)) col later

variable {visitInit : List Visit → Collected → Option Collected}

theorem walks_globalVar (walks : InitWalks file target visitInit) (vid : Nat)
    (col later : Collected) (collected : collectGlobalVar file visitInit vid col = some later) :
    Walks file target [.var vid] col later := by
  rw [collectGlobalVar] at collected
  split_ifs at collected with known
  · obtain rfl := Option.some.inj collected
    exact .of_marked (List.contains_iff_mem.mp known)
  · apply walks_var
    rw [next]
    dsimp only at collected
    split at collected
    · rename_i init found
      have initial : file.initOf vid = init := by rw [CilFile.initOf, found]
      rw [initial]
      exact walks _ _ _ collected
    · rename_i uninitialized
      obtain rfl := Option.some.inj collected
      rw [CilFile.initOf]
      split
      · rename_i found
        exact absurd found (uninitialized _ _)
      · exact .refl _

/-- The items of a visit are those that the visitor follows. -/
theorem walks_initVisit (walks : InitWalks file target visitInit) (visit : Visit)
    (col later : Collected)
    (collected : collectInitVisit file target visitInit visit col = some later) :
    Walks file target (initItem file target visit).toList col later := by
  cases visit with
  | vrbl vid =>
      obtain rfl := Option.some.inj collected
      exact .refl _
  | lval vid =>
      rw [collectInitVisit] at collected
      rw [initItem]
      split_ifs at collected ⊢
      · obtain rfl := Option.some.inj collected
        exact walks_fn vid col
      · exact walks_globalVar walks vid col later collected
      · obtain rfl := Option.some.inj collected
        exact .refl _

theorem filterMap_cons_toList {Source Result : Type} (test : Source → Option Result)
    (head : Source) (rest : List Source) :
    (head :: rest).filterMap test = (test head).toList ++ rest.filterMap test := by
  rw [List.filterMap_cons]
  cases test head <;> rfl

theorem walks_init (steps : Nat) : InitWalks file target (collectInit file target steps) := by
  induction steps with
  | zero =>
      intro _ _ _ collected
      cases collected
  | succ steps ih =>
      intro init
      induction init with
      | nil =>
          intro col later collected
          obtain rfl := Option.some.inj collected
          exact .refl _
      | cons visit rest rest_ih =>
          intro col later collected
          rw [collectInit, List.foldlM_cons] at collected
          obtain ⟨between, now, behind⟩ := Option.bind_eq_some_iff.mp collected
          rw [filterMap_cons_toList]
          exact (walks_initVisit ih visit col between now).trans (rest_ih between later behind)

end Initializers

section Termination

/-- These variables have an initializer. -/
def CilFile.varVids (file : CilFile) : List Nat :=
  file.globals.filterMap fun global => match global with
    | .var vid _ => some vid
    | _ => none

variable {file target}

theorem mem_varVids {vid other : Nat} {init : Option (List Visit)}
    (found : findGlobalVar file vid = some (.var other init)) : vid ∈ file.varVids := by
  have same : other = vid := by simpa using List.find?_some found
  exact List.mem_filterMap.mpr ⟨_, List.mem_of_find?_eq_some found, by rw [same]⟩

/-- These variables are not marked yet. -/
def unmarked (file : CilFile) (col : Collected) : Nat :=
  file.varVids.countP fun vid => !col.varVids.contains vid

variable {first second : Collected}

theorem Emits.unmarked_le {rule : Nat → List FunGlobal} (emits : Emits file rule first second) :
    unmarked file second ≤ unmarked file first :=
  countP_new_le fun vid member => emits.kept (a := .var vid) member

/-- The visit of the initializer ends where at most so many variables are not marked. -/
def EndsWithin (file : CilFile) (target bound : Nat) (init : List Visit) : Prop :=
  ∀ col, unmarked file col ≤ bound →
    ∃ later, Ends (fun steps => collectInit file target steps init col) later

variable {bound : Nat}

/-- The initializer of a variable that is visited for the first time has fewer variables left. -/
theorem globalVar_ends (fewer : ∀ less < bound, ∀ init, EndsWithin file target less init)
    (vid : Nat) (col : Collected) (small : unmarked file col ≤ bound) :
    ∃ later, Ends (fun steps => collectGlobalVar file (collectInit file target steps) vid col)
      later := by
  by_cases known : col.varVids.contains vid = true
  · simp only [collectGlobalVar, if_pos known]
    exact ⟨col, .pure col⟩
  · simp only [collectGlobalVar, if_neg known]
    split
    · rename_i found
      have less := countP_new_cons_lt (mem_varVids found)
        fun member => known (List.contains_iff_mem.mpr member)
      exact fewer _ (less.trans_le small) _ _ le_rfl
    · exact ⟨_, .pure _⟩

theorem initVisit_ends (fewer : ∀ less < bound, ∀ init, EndsWithin file target less init)
    (visit : Visit) (col : Collected) (small : unmarked file col ≤ bound) :
    ∃ later, Ends (fun steps =>
      collectInitVisit file target (collectInit file target steps) visit col) later := by
  cases visit with
  | vrbl vid => exact ⟨col, .pure col⟩
  | lval vid =>
      simp only [collectInitVisit]
      split_ifs
      · exact ⟨_, .pure _⟩
      · exact globalVar_ends fewer vid col small
      · exact ⟨_, .pure _⟩

/-- The induction is on the variables that are not marked and then on the visits. -/
theorem endsWithin (bound : Nat) (init : List Visit) : EndsWithin file target bound init := by
  induction bound using Nat.strong_induction_on generalizing init with
  | _ bound fewer =>
      induction init with
      | nil => exact fun col _ => ⟨col, Ends.succ (.pure col)⟩
      | cons visit rest ih =>
          intro col small
          obtain ⟨between, now⟩ := initVisit_ends fewer visit col small
          have emits : Emits file (initEmission file) col between := by
            obtain ⟨enough, found⟩ := now
            exact (walks_initVisit (walks_init enough) visit col between (found enough le_rfl)).emits
          obtain ⟨later, enough, found⟩ := ih between (emits.unmarked_le.trans small)
          have behind : Ends (fun steps => rest.foldlM (fun col visit =>
              collectInitVisit file target (collectInit file target steps) visit col) between)
              later := ⟨enough, fun steps more => found (steps + 1) (by omega)⟩
          exact ⟨later, Ends.succ (now.bind behind)⟩

end Termination

section Body

/-- The function itself is the first one of the items that leads to it. -/
def ComesFirst (items : List Item) (vid : Nat) : Prop :=
  ∃ before after, items = before ++ .fn vid :: after ∧
    ∀ item ∈ before, ¬ LeadsTo file target item (.fn vid)

/-- One of the items leads to the other item. -/
def Reaches (items : List Item) (item : Item) : Prop :=
  ∃ source ∈ items, LeadsTo file target source item

/-- A function that comes first is emitted for the body, and another one for an initializer. -/
def EmittedFor (items : List Item) (vid : Nat) (emitted : FunGlobal) : Prop :=
  ComesFirst file target items vid ∧ emitted ∈ bodyEmission file vid ∨
    ¬ ComesFirst file target items vid ∧ emitted ∈ initEmission file vid

variable {file target} {items : List Item} {item : Item} {vid : Nat}

theorem reaches_append {others : List Item} {later : Item} :
    Reaches file target (items ++ others) later ↔
      Reaches file target items later ∨ Reaches file target others later := by
  simp only [Reaches, List.mem_append, or_and_right, exists_or]

theorem reaches_singleton {later : Item} :
    Reaches file target [item] later ↔ LeadsTo file target item later := by
  simp [Reaches]

/-- A function that an earlier item leads to comes first where it did. -/
theorem comesFirst_snoc_of_reaches (reaches : Reaches file target items (.fn vid)) :
    ComesFirst file target (items ++ [item]) vid ↔ ComesFirst file target items vid := by
  obtain ⟨source, member, leads⟩ := reaches
  constructor
  · rintro ⟨before, after, split, fresh⟩
    rcases List.eq_nil_or_concat after with rfl | ⟨inner, last, rfl⟩
    · obtain ⟨rfl, _⟩ := List.append_inj' split rfl
      exact absurd leads (fresh source member)
    · have front : items ++ [item] = (before ++ .fn vid :: inner) ++ [last] := by
        rw [split, List.concat_eq_append, List.append_assoc, List.cons_append]
      obtain ⟨rfl, _⟩ := List.append_inj' front rfl
      exact ⟨before, inner, rfl, fresh⟩
  · rintro ⟨before, after, rfl, fresh⟩
    exact ⟨before, after ++ [item], by rw [List.append_assoc, List.cons_append], fresh⟩

/-- A function that no earlier item leads to comes first where it is the next item. -/
theorem comesFirst_snoc_of_not (fresh : ¬ Reaches file target items (.fn vid)) :
    ComesFirst file target (items ++ [item]) vid ↔ item = .fn vid := by
  constructor
  · rintro ⟨before, after, split, _⟩
    rcases List.eq_nil_or_concat after with rfl | ⟨inner, last, rfl⟩
    · obtain ⟨_, same⟩ := List.append_inj' split rfl
      exact List.singleton_inj.mp same
    · have front : items ++ [item] = (before ++ .fn vid :: inner) ++ [last] := by
        rw [split, List.concat_eq_append, List.append_assoc, List.cons_append]
      obtain ⟨rfl, _⟩ := List.append_inj' front rfl
      exact absurd ⟨.fn vid, List.mem_append_right _ List.mem_cons_self, .refl⟩ fresh
  · rintro rfl
    exact ⟨items, [], rfl, fun source member leads => fresh ⟨source, member, leads⟩⟩

theorem emittedFor_snoc_of_reaches (reaches : Reaches file target items (.fn vid))
    (emitted : FunGlobal) : EmittedFor file target (items ++ [item]) vid emitted ↔
      EmittedFor file target items vid emitted := by
  rw [EmittedFor, EmittedFor, comesFirst_snoc_of_reaches reaches]

/-- These are the marks, the functions and the declarations after the items. -/
structure Holds (file : CilFile) (target : Nat) (start : Collected) (items : List Item)
    (col : Collected) : Prop where
  marks : ∀ item, item ∈ col.marked ↔ Reaches file target items item
  funs : ∀ emitted, emitted ∈ col.funs ↔
    ∃ vid, Reaches file target items (.fn vid) ∧ EmittedFor file target items vid emitted
  decls : ∀ named, named ∈ col.funDeclVids ↔ named ∈ start.funDeclVids ∨
    ∃ vid, Reaches file target items (.fn vid) ∧ CalleeMentions file vid named

variable {start first second : Collected} {rule : Nat → List FunGlobal}

/-- The new functions are emitted by the rule of the next item. -/
theorem Holds.snoc (holds : Holds file target start items first)
    (emits : Emits file rule first second)
    (marks : ∀ later, later ∈ second.marked ↔ later ∈ first.marked ∨ LeadsTo file target item later)
    (ruled : ∀ vid, ¬ Reaches file target items (.fn vid) → LeadsTo file target item (.fn vid) →
      ∀ emitted, emitted ∈ rule vid ↔ EmittedFor file target (items ++ [item]) vid emitted) :
    Holds file target start (items ++ [item]) second := by
  have reaches : ∀ later, Reaches file target (items ++ [item]) later ↔
      Reaches file target items later ∨ LeadsTo file target item later := by
    intro later
    rw [reaches_append, reaches_singleton]
  have new : ∀ vid, .fn vid ∈ second.marked \ first.marked ↔
      ¬ Reaches file target items (.fn vid) ∧ LeadsTo file target item (.fn vid) := by
    intro vid
    rw [Set.mem_sdiff, marks, holds.marks]
    tauto
  refine ⟨fun later => by rw [marks, holds.marks, reaches], fun emitted => ?_, fun named => ?_⟩
  · rw [emits.funs, holds.funs]
    constructor
    · rintro (⟨vid, early, given⟩ | ⟨vid, fresh, given⟩)
      · exact ⟨vid, (reaches _).mpr (.inl early), (emittedFor_snoc_of_reaches early _).mpr given⟩
      · obtain ⟨absent, leads⟩ := (new vid).mp fresh
        exact ⟨vid, (reaches _).mpr (.inr leads), (ruled vid absent leads emitted).mp given⟩
    · rintro ⟨vid, inside, given⟩
      by_cases early : Reaches file target items (.fn vid)
      · exact .inl ⟨vid, early, (emittedFor_snoc_of_reaches early _).mp given⟩
      · have leads := ((reaches _).mp inside).resolve_left early
        exact .inr ⟨vid, (new vid).mpr ⟨early, leads⟩, (ruled vid early leads emitted).mpr given⟩
  · rw [emits.decls, holds.decls, or_assoc]
    apply or_congr_right
    constructor
    · rintro (⟨vid, early, given⟩ | ⟨vid, fresh, given⟩)
      · exact ⟨vid, (reaches _).mpr (.inl early), given⟩
      · exact ⟨vid, (reaches _).mpr (.inr ((new vid).mp fresh).2), given⟩
    · rintro ⟨vid, inside, given⟩
      by_cases early : Reaches file target items (.fn vid)
      · exact .inl ⟨vid, early, given⟩
      · have leads := ((reaches _).mp inside).resolve_left early
        exact .inr ⟨vid, (new vid).mpr ⟨early, leads⟩, given⟩

/-- All that is marked has been finished. -/
theorem Holds.closed (holds : Holds file target start items first) :
    ClosedExcept (next file target) ∅ first.marked := by
  intro item member _ later edge
  obtain ⟨source, inside, leads⟩ := (holds.marks item).mp member
  exact (holds.marks later).mpr ⟨source, inside, leads.tail edge⟩

theorem Holds.fn (holds : Holds file target start items first) (vid : Nat) :
    Holds file target start (items ++ [.fn vid]) (collectOnce (collectCallee file) vid first) := by
  obtain ⟨emits, marked⟩ := emits_once emitsCallee_collectCallee vid first
  apply holds.snoc emits
  · intro later
    rw [marked, Set.mem_insert_iff, or_comm]
    apply or_congr_right
    exact ⟨fun same => same ▸ .refl, leadsTo_fn⟩
  · intro other absent leads emitted
    have same : Item.fn vid = .fn other := (leadsTo_fn leads).symm
    rw [EmittedFor, comesFirst_snoc_of_not absent]
    simp [same]

theorem Holds.var (holds : Holds file target start items first) {vid : Nat}
    (walks : Walks file target [.var vid] first second) :
    Holds file target start (items ++ [.var vid]) second := by
  apply holds.snoc walks.emits
  · intro later
    constructor
    · intro member
      rcases walks.sound later member with old | ⟨source, own, leads⟩
      · exact .inl old
      · exact .inr (List.mem_singleton.mp own ▸ leads)
    · rintro (old | leads)
      · exact walks.emits.kept old
      · exact (walks.closed ∅ holds.closed).reaches
          (walks.covered _ (List.mem_singleton_self _)) leads
  · intro other absent _ emitted
    rw [EmittedFor, comesFirst_snoc_of_not absent]
    simp

theorem holds_visit (steps : Nat) (visit : Visit) (holds : Holds file target start items first)
    (collected : collectVisit file target (collectInit file target steps) visit first =
      some second) :
    Holds file target start (items ++ (bodyItem file target visit).toList) second := by
  have same : items ++ [] = items := List.append_nil items
  cases visit with
  | vrbl vid =>
      rw [collectVisit] at collected
      rw [bodyItem]
      split_ifs at collected ⊢
      · obtain rfl := Option.some.inj collected
        exact holds.fn vid
      · obtain rfl := Option.some.inj collected
        exact same.symm ▸ holds
  | lval vid =>
      rw [collectVisit] at collected
      rw [bodyItem]
      split_ifs at collected ⊢
      · obtain rfl := Option.some.inj collected
        exact holds.fn vid
      · exact holds.var (walks_globalVar (walks_init steps) vid first second collected)
      · obtain rfl := Option.some.inj collected
        exact same.symm ▸ holds

theorem holds_body (steps : Nat) (body : List Visit) (holds : Holds file target start items first)
    (collected : collectBody file target steps body first = some second) :
    Holds file target start (items ++ body.filterMap (bodyItem file target)) second := by
  induction body generalizing items first with
  | nil =>
      obtain rfl := Option.some.inj collected
      rw [List.filterMap_nil, List.append_nil]
      exact holds
  | cons visit rest ih =>
      rw [collectBody, List.foldlM_cons] at collected
      obtain ⟨between, now, behind⟩ := Option.bind_eq_some_iff.mp collected
      rw [filterMap_cons_toList, ← List.append_assoc]
      exact ih (holds_visit steps visit holds now) behind

theorem visit_ends (visit : Visit) (col : Collected) :
    ∃ later, Ends (fun steps =>
      collectVisit file target (collectInit file target steps) visit col) later := by
  have fewer : ∀ less < unmarked file col + 1, ∀ init, EndsWithin file target less init :=
    fun less _ init => endsWithin less init
  cases visit with
  | vrbl vid =>
      simp only [collectVisit]
      split_ifs
      · exact ⟨_, .pure _⟩
      · exact ⟨_, .pure _⟩
  | lval vid =>
      simp only [collectVisit]
      split_ifs
      · exact ⟨_, .pure _⟩
      · exact globalVar_ends fewer vid col (Nat.le_succ _)
      · exact ⟨_, .pure _⟩

theorem body_ends (body : List Visit) (col : Collected) :
    ∃ later, Ends (fun steps => collectBody file target steps body col) later := by
  induction body generalizing col with
  | nil => exact ⟨col, .pure col⟩
  | cons visit rest ih =>
      obtain ⟨between, now⟩ : ∃ later, Ends (fun steps =>
          collectVisit file target (collectInit file target steps) visit col) later :=
        visit_ends visit col
      obtain ⟨later, behind⟩ := ih between
      exact ⟨later, now.bind behind⟩

end Body

section Table

variable {file : CilFile} {vid other : Nat} {kf kf' : KernelFunction}

/-- The number of a function in the table resolves to this function. -/
theorem resolveCallee_self (found : resolveCallee file vid = some kf) :
    resolveCallee file kf.vid = some kf := by
  rw [resolveCallee] at found
  split at found
  · rename_i first own
    obtain rfl := Option.some.inj found
    have same : first.vid = vid := by simpa using List.find?_some own
    rw [resolveCallee, same, own]
  · have named : file.vname kf.vid = file.vname vid := by simpa using List.find?_some found
    rw [resolveCallee, FirstMatch.find?_of_lax _ found (beq_self_eq_true kf.vid)]
    intro earlier _ same
    rw [beq_iff_eq.mp same, named]
    exact beq_self_eq_true _

theorem eq_of_vid_eq (found : resolveCallee file vid = some kf)
    (found' : resolveCallee file other = some kf') (same : kf.vid = kf'.vid) : kf = kf' := by
  have self := resolveCallee_self found
  rw [same, resolveCallee_self found'] at self
  exact (Option.some.inj self).symm

theorem ne_vid_of_unresolved (unknown : resolveCallee file vid = none)
    (found : resolveCallee file other = some kf) : kf.vid ≠ vid := by
  rintro rfl
  rw [resolveCallee_self found] at unknown
  cases unknown

variable {target : Nat} {items : List Item} {emitted : FunGlobal}

theorem emittedFor_cases (given : EmittedFor file target items vid emitted) :
    (∃ kf, resolveCallee file vid = some kf ∧
      (emitted = .decl kf.spec kf.vid ∨ ∃ empty, emitted = .function kf.vid empty)) ∨
    resolveCallee file vid = none ∧ ¬ ComesFirst file target items vid ∧
      emitted = .decl .none vid := by
  cases found : resolveCallee file vid with
  | none =>
      simp only [EmittedFor, bodyEmission, initEmission, found, List.not_mem_nil, and_false,
        List.mem_singleton, false_or] at given
      exact .inr ⟨rfl, given⟩
  | some kf =>
      simp only [EmittedFor, bodyEmission, initEmission, found] at given
      refine .inl ⟨kf, rfl, ?_⟩
      rcases given with ⟨_, member⟩ | ⟨_, member⟩ <;> (split_ifs at member <;>
        simp only [stubOf, List.mem_cons, List.not_mem_nil, or_false] at member) <;>
        grind

theorem emittedFor_function {empty : Bool}
    (given : EmittedFor file target items vid (.function other empty)) :
    ∃ kf, resolveCallee file vid = some kf ∧ kf.vid = other ∧
      (kf.isDefinition = true ∨ ComesFirst file target items vid) := by
  rcases given with ⟨first, member⟩ | ⟨_, member⟩
  · rcases emittedFor_cases (.inl ⟨first, member⟩) with ⟨kf, found, shape⟩ | ⟨_, _, impossible⟩
    · rcases shape with impossible | ⟨_, same⟩
      · cases impossible
      · exact ⟨kf, found, (FunGlobal.function.inj same).1.symm, .inr first⟩
    · cases impossible
  · rw [initEmission] at member
    cases found : resolveCallee file vid with
    | none => simp [found] at member
    | some kf =>
        by_cases defined : kf.isDefinition = true
        · simp only [found, if_pos defined, stubOf] at member
          refine ⟨kf, rfl, ?_, .inl defined⟩
          split_ifs at member <;> simp at member <;> exact member.1.symm
        · simp [found, defined] at member

theorem emittedFor_of_known (found : resolveCallee file vid = some kf)
    (known : kf.isDefinition = true ∨ kf.spec.hasAssigns = true ∨
      ComesFirst file target items vid) :
    (∃ empty, EmittedFor file target items vid (.function kf.vid empty)) ∨
      EmittedFor file target items vid (.decl kf.spec kf.vid) ∧ kf.spec.hasAssigns = true := by
  by_cases first : ComesFirst file target items vid
  · by_cases assigns : kf.spec.hasAssigns = true
    · by_cases defined : kf.isDefinition = true
      · exact .inl ⟨false, .inl ⟨first, by simp [bodyEmission, found, assigns, defined]⟩⟩
      · exact .inr ⟨.inl ⟨first, by simp [bodyEmission, found, assigns, defined]⟩, assigns⟩
    · exact .inl ⟨true, .inl ⟨first, by simp [bodyEmission, found, assigns, stubOf]⟩⟩
  · by_cases defined : kf.isDefinition = true
    · exact .inl ⟨true, .inr ⟨first, by simp [initEmission, found, defined, stubOf]⟩⟩
    · have assigns : kf.spec.hasAssigns = true := by tauto
      exact .inr ⟨.inr ⟨first, by simp [initEmission, found, defined]⟩, assigns⟩

theorem ComesFirst.reaches (first : ComesFirst file target items vid) :
    Reaches file target items (.fn vid) := by
  obtain ⟨before, after, rfl, _⟩ := first
  exact ⟨.fn vid, List.mem_append_right _ List.mem_cons_self, .refl⟩

end Table

section Output

variable (file : CilFile) (target : Target)

def CilFile.ListsFunction (vid : Nat) : Prop :=
  ∃ global ∈ file.globals, global.functionVid = some vid

/-- These are the functions and the variables that the body refers to. -/
def Target.items : List Item := target.body.filterMap (bodyItem file target.vid)

/-- A contract that is read for the target mentions the function. -/
def Mentioned (vid : Nat) : Prop :=
  AnnotMentions file file.globals vid ∨ target.spec.Mentions file vid ∨
    ∃ callee, Reaches file target.vid (target.items file) (.fn callee) ∧
      CalleeMentions file callee vid

/-- A function without a body is declared with an assigns clause. -/
def KeepsFrames (target : Nat) (output : List FunGlobal) : Prop :=
  ∀ vid, vid ≠ target → (∃ spec, .decl spec vid ∈ output) →
    (∃ empty, .function vid empty ∈ output) ∨
      ∃ spec, .decl spec vid ∈ output ∧ spec.hasAssigns = true

/-- A callee without a definition and without assigns is referred to by the body before any
variable whose initializers lead to it, and a function in a contract is also a callee. -/
structure FramesKnown : Prop where
  callees : ∀ vid kf, Reaches file target.vid (target.items file) (.fn vid) →
    resolveCallee file vid = some kf → kf.vid ≠ target.vid →
    kf.isDefinition = true ∨ kf.spec.hasAssigns = true ∨
      ∃ other, ComesFirst file target.vid (target.items file) other ∧
        resolveCallee file other = some kf
  unresolved : ∀ vid, Reaches file target.vid (target.items file) (.fn vid) →
    resolveCallee file vid = none → ComesFirst file target.vid (target.items file) vid
  mentioned : ∀ vid, vid ≠ target.vid → file.ListsFunction vid → Mentioned file target vid →
    ∃ callee kf, Reaches file target.vid (target.items file) (.fn callee) ∧
      resolveCallee file callee = some kf ∧ kf.vid = vid

variable {file target} {col : Collected}

theorem mem_calleeDecls (funs : List FunGlobal) (vids : List Nat) (vid : Nat) :
    vid ∈ funs.foldl (fun vids emitted => mark emitted.vid vids) vids ↔
      vid ∈ vids ∨ ∃ emitted ∈ funs, emitted.vid = vid := by
  induction funs generalizing vids with
  | nil => simp
  | cons first rest ih =>
      rw [List.foldl_cons, ih, mem_mark, or_assoc]
      simp [eq_comm]

theorem mem_mentionedDecls (globals : List Global) (vids : List Nat) (vid : Nat) :
    vid ∈ globals.foldl (fun vids global => match global.functionVid with
        | some vid => if col.funDeclVids.contains vid then mark vid vids else vids
        | none => vids) vids ↔
      vid ∈ vids ∨ (∃ global ∈ globals, global.functionVid = some vid) ∧
        vid ∈ col.funDeclVids := by
  induction globals generalizing vids with
  | nil => simp
  | cons first rest ih =>
      rw [List.foldl_cons, ih]
      cases found : first.functionVid with
      | none => simp [found]
      | some other =>
          by_cases known : other ∈ col.funDeclVids
          · simp only [List.contains_iff_mem, known, if_true, mem_mark, List.exists_mem_cons_iff,
              found, Option.some.injEq]
            constructor
            · rintro ((old | rfl) | later)
              · exact .inl old
              · exact .inr ⟨.inl rfl, known⟩
              · exact .inr ⟨.inr later.1, later.2⟩
            · rintro (old | ⟨rfl | later, inside⟩)
              · exact .inl (.inl old)
              · exact .inl (.inr rfl)
              · exact .inr ⟨later, inside⟩
          · simp only [List.contains_iff_mem, known, if_false, List.exists_mem_cons_iff, found,
              Option.some.injEq]
            constructor
            · rintro (old | later)
              · exact .inl old
              · exact .inr ⟨.inr later.1, later.2⟩
            · rintro (old | ⟨rfl | later, inside⟩)
              · exact .inl old
              · exact absurd inside known
              · exact .inr ⟨later, inside⟩

theorem mem_declaredVids (vid : Nat) : vid ∈ declaredVids file col ↔
    (∃ emitted ∈ col.funs, emitted.vid = vid) ∨
      file.ListsFunction vid ∧ vid ∈ col.funDeclVids := by
  apply (mem_mentionedDecls file.globals _ vid).trans
  rw [mem_calleeDecls]
  simp only [List.not_mem_nil, false_or]
  rfl

theorem decl_mem_output {spec : Spec} {vid : Nat} :
    .decl spec vid ∈ generateOutput file col target.vid ↔
      .decl spec vid ∈ col.funs ∨ spec = .none ∧ vid ∈ declaredVids file col := by
  simp only [generateOutput, List.mem_append, List.mem_map, List.mem_reverse, List.mem_singleton,
    FunGlobal.decl.injEq, reduceCtorEq, or_false]
  constructor
  · rintro (⟨other, member, rfl, rfl⟩ | member)
    · exact .inr ⟨rfl, member⟩
    · exact .inl member
  · rintro (member | ⟨rfl, member⟩)
    · exact .inr member
    · exact .inl ⟨vid, member, rfl, rfl⟩

theorem function_mem_output {vid : Nat} {empty : Bool} (other : vid ≠ target.vid) :
    .function vid empty ∈ generateOutput file col target.vid ↔
      .function vid empty ∈ col.funs := by
  simp [generateOutput, other]

/-- The collection starts with what the annotations and the contract of the target mention. -/
def start (file : CilFile) (target : Target) : Collected :=
  collectFunspec file target.spec (collectGlobalAnnotations file {})

theorem mentionsStep_start : MentionsStep
    (fun vid => AnnotMentions file file.globals vid ∨ target.spec.Mentions file vid) {}
    (start file target) :=
  (mentionsStep_annotations {}).trans (mentionsStep_funspec target.spec _)

theorem holds_start : Holds file target.vid (start file target) [] (start file target) := by
  have step : MentionsStep _ {} (start file target) := mentionsStep_start
  refine ⟨fun item => ?_, fun emitted => ?_, fun named => ?_⟩
  · have unmarked : item ∉ (start file target).marked := by
      change ¬ Collected.Marks _ item
      cases item with
      | fn vid => rw [Collected.Marks, step.funVids]; exact List.not_mem_nil
      | var vid => rw [Collected.Marks, step.varVids]; exact List.not_mem_nil
    simp [unmarked, Reaches]
  · rw [step.funs]
    simp [Reaches]
  · simp [Reaches]

/-- These are the functions and the declarations at the end of the visit of the body. -/
structure Gathered (file : CilFile) (target : Target) (col : Collected) : Prop where
  funs : ∀ emitted, emitted ∈ col.funs ↔
    ∃ vid, Reaches file target.vid (target.items file) (.fn vid) ∧
      EmittedFor file target.vid (target.items file) vid emitted
  decls : ∀ named, named ∈ col.funDeclVids ↔ Mentioned file target named

theorem gathered_body (steps : Nat)
    (collected : collectBody file target.vid steps target.body (start file target) = some col) :
    Gathered file target col := by
  have holds : Holds file target.vid (start file target) (target.items file) col :=
    holds_body steps target.body holds_start collected
  refine ⟨holds.funs, fun named => ?_⟩
  rw [holds.decls, mentionsStep_start.decls, Mentioned]
  simp [or_assoc]

theorem ne_target_of_initItem {visit : Visit} {target vid : Nat}
    (found : initItem file target visit = some (.fn vid)) : vid ≠ target := by
  cases visit with
  | vrbl other => cases found
  | lval other =>
      rw [initItem] at found
      split_ifs at found with function
      · obtain rfl := Item.fn.inj (Option.some.inj found)
        simp at function
        exact function.1.2
      · cases Option.some.inj found

theorem ne_target_of_bodyItem {visit : Visit} {target vid : Nat}
    (found : bodyItem file target visit = some (.fn vid)) : vid ≠ target := by
  cases visit with
  | vrbl other =>
      rw [bodyItem] at found
      split_ifs at found with function
      obtain rfl := Item.fn.inj (Option.some.inj found)
      simp at function
      exact function.2
  | lval other =>
      rw [bodyItem] at found
      split_ifs at found with function
      · obtain rfl := Item.fn.inj (Option.some.inj found)
        simp at function
        exact function.2
      · cases Option.some.inj found

theorem ne_target_of_reaches {vid : Nat}
    (reaches : Reaches file target.vid (target.items file) (.fn vid)) : vid ≠ target.vid := by
  obtain ⟨source, member, leads⟩ := reaches
  rcases leads.cases_tail with same | ⟨item, _, edge⟩
  · obtain ⟨visit, _, found⟩ := List.mem_filterMap.mp member
    exact ne_target_of_bodyItem (same ▸ found)
  · cases item with
    | fn other => cases edge
    | var other =>
        obtain ⟨visit, _, found⟩ := List.mem_filterMap.mp edge
        exact ne_target_of_initItem found

section Frames

variable (gathered : Gathered file target col)

include gathered

/-- A known callee stands in the output with a body or with its frame. -/
theorem Gathered.backed {callee : Nat} {kf : KernelFunction}
    (reaches : Reaches file target.vid (target.items file) (.fn callee))
    (found : resolveCallee file callee = some kf) (other : kf.vid ≠ target.vid)
    (known : kf.isDefinition = true ∨ kf.spec.hasAssigns = true ∨
      ComesFirst file target.vid (target.items file) callee) :
    (∃ empty, .function kf.vid empty ∈ generateOutput file col target.vid) ∨
      ∃ spec, .decl spec kf.vid ∈ generateOutput file col target.vid ∧
        spec.hasAssigns = true := by
  rcases emittedFor_of_known found known with ⟨empty, given⟩ | ⟨given, assigns⟩
  · left
    exact ⟨empty, (function_mem_output other).mpr ((gathered.funs _).mpr ⟨callee, reaches, given⟩)⟩
  · right
    exact ⟨kf.spec, decl_mem_output.mpr (.inl ((gathered.funs _).mpr ⟨callee, reaches, given⟩)),
      assigns⟩

theorem Gathered.backed_of_framesKnown (frames : FramesKnown file target) {callee : Nat}
    {kf : KernelFunction} (reaches : Reaches file target.vid (target.items file) (.fn callee))
    (found : resolveCallee file callee = some kf) (other : kf.vid ≠ target.vid) :
    (∃ empty, .function kf.vid empty ∈ generateOutput file col target.vid) ∨
      ∃ spec, .decl spec kf.vid ∈ generateOutput file col target.vid ∧
        spec.hasAssigns = true := by
  rcases frames.callees callee kf reaches found other with defined | assigns | ⟨early, first, same⟩
  · exact gathered.backed reaches found other (.inl defined)
  · exact gathered.backed reaches found other (.inr (.inl assigns))
  · exact gathered.backed first.reaches same other (.inr (.inr first))

theorem Gathered.keepsFrames (frames : FramesKnown file target) :
    KeepsFrames target.vid (generateOutput file col target.vid) := by
  have emitted : ∀ vid, vid ≠ target.vid → (∃ emitted ∈ col.funs, emitted.vid = vid) →
      (∃ empty, .function vid empty ∈ generateOutput file col target.vid) ∨
        ∃ spec, .decl spec vid ∈ generateOutput file col target.vid ∧
          spec.hasAssigns = true := by
    rintro vid other ⟨emitted, member, rfl⟩
    obtain ⟨callee, reaches, given⟩ := (gathered.funs emitted).mp member
    rcases emittedFor_cases given with ⟨kf, found, shape⟩ | ⟨unknown, late, _⟩
    · have same : emitted.vid = kf.vid := by
        rcases shape with rfl | ⟨_, rfl⟩ <;> rfl
      rw [same] at other ⊢
      exact gathered.backed_of_framesKnown frames reaches found other
    · exact absurd (frames.unresolved callee reaches unknown) late
  rintro vid other ⟨spec, member⟩
  rcases decl_mem_output.mp member with inside | ⟨_, declared⟩
  · exact emitted vid other ⟨_, inside, rfl⟩
  · rcases (mem_declaredVids vid).mp declared with inside | ⟨listed, named⟩
    · exact emitted vid other inside
    · obtain ⟨callee, kf, reaches, found, rfl⟩ :=
        frames.mentioned vid other listed ((gathered.decls vid).mp named)
      exact gathered.backed_of_framesKnown frames reaches found other

theorem Gathered.callee_of_backed {vid : Nat} (other : vid ≠ target.vid)
    (backed : (∃ empty, .function vid empty ∈ generateOutput file col target.vid) ∨
      ∃ spec, .decl spec vid ∈ generateOutput file col target.vid ∧ spec.hasAssigns = true) :
    ∃ callee kf, Reaches file target.vid (target.items file) (.fn callee) ∧
      resolveCallee file callee = some kf ∧ kf.vid = vid ∧
      (kf.isDefinition = true ∨ kf.spec.hasAssigns = true ∨
        ComesFirst file target.vid (target.items file) callee) := by
  rcases backed with ⟨empty, member⟩ | ⟨spec, member, assigns⟩
  · obtain ⟨callee, reaches, given⟩ :=
      (gathered.funs _).mp ((function_mem_output other).mp member)
    obtain ⟨kf, found, same, known⟩ := emittedFor_function given
    exact ⟨callee, kf, reaches, found, same, known.imp id .inr⟩
  · rcases decl_mem_output.mp member with inside | ⟨rfl, _⟩
    · obtain ⟨callee, reaches, given⟩ := (gathered.funs _).mp inside
      rcases emittedFor_cases given with ⟨kf, found, shape⟩ | ⟨_, _, shape⟩
      · rcases shape with same | ⟨_, impossible⟩
        · obtain ⟨rfl, rfl⟩ := FunGlobal.decl.inj same
          exact ⟨callee, kf, reaches, found, rfl, .inr (.inl assigns)⟩
        · cases impossible
      · rw [(FunGlobal.decl.inj shape).1] at assigns
        cases assigns
    · cases assigns

theorem Gathered.framesKnown (keeps : KeepsFrames target.vid (generateOutput file col target.vid)) :
    FramesKnown file target where
  callees := by
    intro vid kf reaches found other
    by_contra unknown
    push Not at unknown
    obtain ⟨undefined, silent, late⟩ := unknown
    have declared : .decl kf.spec kf.vid ∈ col.funs := by
      apply (gathered.funs _).mpr ⟨vid, reaches, .inr ⟨fun first => late vid first found, ?_⟩⟩
      simp [initEmission, found, undefined]
    obtain ⟨callee, kf', _, found', same, known⟩ := gathered.callee_of_backed other
      (keeps kf.vid other ⟨kf.spec, decl_mem_output.mpr (.inl declared)⟩)
    obtain rfl := eq_of_vid_eq found' found same
    rcases known with defined | assigns | first
    · exact undefined defined
    · exact silent assigns
    · exact late callee first found'
  unresolved := by
    intro vid reaches unknown
    by_contra late
    have declared : .decl .none vid ∈ col.funs := by
      apply (gathered.funs _).mpr ⟨vid, reaches, .inr ⟨late, ?_⟩⟩
      simp [initEmission, unknown]
    have other : vid ≠ target.vid := ne_target_of_reaches reaches
    obtain ⟨callee, kf, _, found, same, _⟩ := gathered.callee_of_backed other
      (keeps vid other ⟨.none, decl_mem_output.mpr (.inl declared)⟩)
    exact ne_vid_of_unresolved unknown found same
  mentioned := by
    intro vid other listed named
    have declared : vid ∈ declaredVids file col :=
      (mem_declaredVids vid).mpr (.inr ⟨listed, (gathered.decls vid).mpr named⟩)
    obtain ⟨callee, kf, reaches, found, same, _⟩ := gathered.callee_of_backed other
      (keeps vid other ⟨.none, decl_mem_output.mpr (.inr ⟨rfl, declared⟩)⟩)
    exact ⟨callee, kf, reaches, found, same⟩

end Frames

end Output

/-- The extraction ends, and it declares no function without a frame where the frames are known. -/
theorem extract_keepsFrames_iff (file : CilFile) (target : Target) :
    ∃ output, Ends (extract file target) output ∧
      (KeepsFrames target.vid output ↔ FramesKnown file target) := by
  obtain ⟨col, ends⟩ : ∃ later, Ends (fun steps =>
      collectBody file target.vid steps target.body (start file target)) later :=
    body_ends target.body _
  obtain ⟨steps, collected⟩ : ∃ steps, collectBody file target.vid steps target.body
      (start file target) = some col := ends.imp fun enough found => found enough le_rfl
  have gathered : Gathered file target col := gathered_body steps collected
  exact ⟨_, ends.map _, gathered.framesKnown, gathered.keepsFrames⟩

/-- The table holds the address of a function that has no body and no contract. -/
def tableFile : CilFile where
  vname := fun vid => if vid = 1 then "handle" else if vid = 2 then "table" else "run"
  vglob := fun _ => true
  isFun := fun vid => vid != 2
  globals := [.funDecl 1, .var 2 (some [.lval 1]), .function 3]
  functions := [⟨1, false, .none⟩, ⟨3, true, .none⟩]

/-- The body reads the table. -/
def tableTarget : Target := ⟨3, .none, [.lval 2, .vrbl 2]⟩

/-- The callee in the initializer is declared before its frame is asked for. -/
theorem extract_not_keepsFrames_table :
    ∃ output, Ends (extract tableFile tableTarget) output ∧
      .decl .none 1 ∈ output ∧ ¬ KeepsFrames tableTarget.vid output := by
  refine ⟨[.decl .none 1, .decl .none 1, .function 3 false],
    Ends.succ ⟨0, fun steps _ => rfl⟩, by decide, fun keeps => ?_⟩
  rcases keeps 1 (by decide) ⟨.none, by decide⟩ with ⟨empty, member⟩ | ⟨spec, member, assigns⟩
  · cases empty <;> exact absurd member (by decide)
  · simp at member
    rw [member] at assigns
    cases assigns

end FramaCMcp.CalleeCollection
