/-
This file shows what the insertions of ghost code keep of a file.
-/

import FramaCMcp.Proof.GhostFiles

namespace FramaCMcp.Ghost

open Cil

section Pieces

/-- An instruction that calls nothing and initializes nothing only brings its number. -/
theorem piece_of_instr {info : StmtInfo} {instr : Instr} (ghost : info.ghost = true)
    (noCall : instr.callSite = none) (noLocal : instr.initializedVar = none) :
    Piece (.instr info instr) [] [] [info.sid] where
  ghost := ghost
  localsGhost := fun _ member => absurd member List.not_mem_nil
  sids := fun _ => rfl
  calls := fun blocals => by
    rw [Stmt.nodes, nodeCalls, List.filterMap_cons_none (by rw [Option.bind_some, noCall])]
    rfl
  scopes := fun _ member => absurd member List.not_mem_nil
  listed := by
    intro slocals blocals _ _ node member vi initialized
    obtain rfl := List.mem_singleton.mp member
    rw [Option.bind_some, noLocal] at initialized
    cases initialized

/-- A declaration brings its local. -/
theorem piece_of_localInit {info : StmtInfo} {vi : Varinfo} {values : List Exp} {line : Nat}
    (ghost : info.ghost = true) (ghostVar : vi.vghost = true) :
    Piece (.instr info (.localInit vi (.assignInit values) line)) [vi] [vi] [info.sid] where
  ghost := ghost
  localsGhost := fun _ member => List.mem_singleton.mp member ▸ ghostVar
  sids := fun _ => rfl
  calls := fun _ => rfl
  scopes := fun _ member => member
  listed := by
    intro slocals blocals fresh within node member other initialized
    obtain rfl := List.mem_singleton.mp member
    obtain rfl : vi = other := Option.some.inj initialized
    exact ⟨listedOnce_of_fresh fresh, listedOnce_of_fresh within⟩

theorem listed_of_quiet {slocals : List Varinfo} {nodes : List Node}
    (quiet : (nodes.all fun node => (node.instr.bind Instr.initializedVar).isNone) = true) :
    ∀ node ∈ nodes, NodeListed slocals node := by
  intro node member vi initialized
  have none := Option.isNone_iff_eq_none.mp (List.all_eq_true.mp quiet node member)
  rw [none] at initialized
  cases initialized

variable [Kernel] (ast : Ast) (line : Nat) (loop : GhostLoop)

/-- These are the numbers of a ghost loop in the order of its text. -/
def loopSids : List Nat :=
  [ast.nextSid + 7, ast.nextSid, ast.nextSid + 5, ast.nextSid + 4, ast.nextSid + 2,
    ast.nextSid + 3, ast.nextSid + 1] ++
    if trim loop.assertPred = "" then [] else [ast.nextSid + 6]

/-- A loop brings its counter, which is declared in the block around it. -/
theorem piece_of_loop : Piece (loopCode ast line loop).block [] [(loopCode ast line loop).vi]
    (loopSids ast loop) := by
  refine ⟨rfl, fun _ member => absurd member List.not_mem_nil, fun _ => ?_, fun _ => ?_, ?_, ?_⟩
  · simp only [loopCode, loopSids]
    split_ifs <;> rfl
  · simp only [loopCode]
    split_ifs <;> rfl
  · simp only [loopCode]
    split_ifs <;> exact fun vi member => member
  · intro slocals blocals fresh _
    have first : NodeListed (slocals ++ [(loopCode ast line loop).vi])
        ⟨[(loopCode ast line loop).vi], { sid := ast.nextSid, ghost := true },
          some (.localInit (loopCode ast line loop).vi
            (.assignInit [castTo loop.typ loop.initExp]) line)⟩ := by
      intro vi initialized
      obtain rfl := Option.some.inj initialized
      exact ⟨listedOnce_of_fresh fresh, List.count_singleton_self⟩
    have around (vars : List Varinfo) (info : StmtInfo) :
        NodeListed (slocals ++ [(loopCode ast line loop).vi]) ⟨vars, info, none⟩ :=
      fun vi initialized => by cases initialized
    simp only [loopCode] at first around ⊢
    split_ifs <;> exact List.forall_mem_cons.mpr ⟨around _ _,
      List.forall_mem_cons.mpr ⟨first, listed_of_quiet rfl⟩⟩

theorem supplied_loop : Supplied ast 1 8 [(loopCode ast line loop).vi] (loopSids ast loop) where
  ghosts := fun _ member => List.mem_singleton.mp member ▸ rfl
  vids := fun vi member => by
    obtain rfl := List.mem_singleton.mp member
    exact ⟨le_rfl, Nat.lt_succ_self _⟩
  sids := by
    rw [loopSids]
    split_ifs <;> simp
  nodup := by
    rw [loopSids]
    split_ifs <;> simp

end Pieces

/-- An insertion that reports an error leaves the file. One that succeeds leaves a file that is
checked and the same without ghost code. -/
structure Keeps (ast : Ast) (outcome : Outcome) : Prop where
  checked : Checked outcome.2
  erased : eraseFile outcome.2.globals = eraseFile ast.globals
  restored : ∀ message, outcome.1 = .error message → outcome.2.globals = ast.globals

section Keeping

variable {ast next : Ast} {kf : Varinfo} {fundec : Fundec} {body : Block}
  {declared : List Varinfo} {new : List Nat} {vids sids : Nat}

theorem keeps_of_error (checked : Checked ast) (message : String)
    (same : next.globals = ast.globals) (numbers : ast.nextVid ≤ next.nextVid)
    (statements : ast.nextSid ≤ next.nextSid) : Keeps ast (.error message, next) :=
  ⟨checked.of_globals same numbers statements, by rw [same], fun _ _ => same⟩

theorem keeps_of_refusal (checked : Checked ast) (message : String) :
    Keeps ast (.error message, ast) :=
  keeps_of_error checked message rfl le_rfl le_rfl

theorem keeps_of_advance (checked : Checked ast) (message : String) (vids sids : Nat) :
    Keeps ast (.error message, ast.advance vids sids) :=
  keeps_of_error checked message rfl (Nat.le_add_right _ _) (Nat.le_add_right _ _)

theorem keeps_of_commit (checked : Checked ast) (found : ast.getDefinition kf = some fundec)
    (grown : Grown declared new fundec.sbody body) (supplied : Supplied ast vids sids declared new)
    (inserted : Inserted) :
    Keeps ast (.ok inserted, commitBodyEdit (ast.advance vids sids) kf body declared) :=
  ⟨checked.commit found grown supplied,
    eraseFile_commit checked.toNumbered found grown supplied.ghosts,
    fun message failed => by cases failed⟩

/-- The numbers of one body are different. -/
theorem Checked.nodup_sids (checked : Checked ast) (found : ast.getDefinition kf = some fundec) :
    fundec.sbody.sids.Nodup :=
  (List.nodup_flatMap.mp checked.wellFormed.sids).1 fundec (mem_of_getDefinition found)

theorem supplied_sid (ast : Ast) : Supplied ast 0 1 [] [ast.nextSid] :=
  ⟨fun _ member => absurd member List.not_mem_nil, fun _ member => absurd member List.not_mem_nil,
    fun _ member => List.mem_singleton.mp member ▸ ⟨le_rfl, Nat.lt_succ_self _⟩,
    List.nodup_singleton _⟩

end Keeping

section BodyEdits

variable {ast : Ast} (kf : Varinfo) (stmt : StmtRef)

theorem insertGhostLabel_keeps (checked : Checked ast) (labelName : String) :
    Keeps ast (insertGhostLabel ast kf stmt labelName) := by
  rw [insertGhostLabel]
  cases found : ast.getDefinition kf with
  | none => exact keeps_of_refusal checked _
  | some fundec =>
      dsimp only
      split_ifs
      · exact keeps_of_refusal checked _
      · exact keeps_of_refusal checked _
      · exact keeps_of_refusal checked _
      · split
        case h_1 => exact keeps_of_advance checked _ 0 1
        case h_2 body inserted =>
          have grown := insertInBlock_grown (piece_of_instr rfl rfl rfl)
            (checked.nodup_sids found) inserted
          exact keeps_of_commit checked found grown (supplied_sid ast) _

variable [Kernel]

theorem insertGhostDecl_keeps (checked : Checked ast) (varName : String) (typ : Typ)
    (initExp : Exp) : Keeps ast (insertGhostDecl ast kf stmt varName typ initExp) := by
  rw [insertGhostDecl]
  cases found : ast.getDefinition kf with
  | none => exact keeps_of_refusal checked _
  | some fundec =>
      dsimp only
      split_ifs with known
      · exact keeps_of_refusal checked _
      · split
        case h_1 => exact keeps_of_advance checked _ 1 1
        case h_2 body inserted =>
          have grown := insertInBlock_grown (piece_of_localInit rfl rfl)
            (checked.nodup_sids found) inserted
          refine keeps_of_commit checked found grown ⟨?_, ?_, ?_, List.nodup_singleton _⟩ _
          · exact fun _ member => List.mem_singleton.mp member ▸ rfl
          · exact fun _ member => List.mem_singleton.mp member ▸ ⟨le_rfl, Nat.lt_succ_self _⟩
          · exact fun _ member => List.mem_singleton.mp member ▸ ⟨le_rfl, Nat.lt_succ_self _⟩

theorem insertGhostAssign_keeps (checked : Checked ast) (targetName : String) (expr : Exp) :
    Keeps ast (insertGhostAssign ast kf stmt targetName expr) := by
  rw [insertGhostAssign]
  cases found : ast.getDefinition kf with
  | none => exact keeps_of_refusal checked _
  | some fundec =>
      dsimp only
      split
      case h_1 => exact keeps_of_refusal checked _
      case h_2 vi target =>
        split
        case h_1 => exact keeps_of_advance checked _ 0 1
        case h_2 body inserted =>
          have grown := insertInBlock_grown (piece_of_instr rfl rfl rfl)
            (checked.nodup_sids found) inserted
          exact keeps_of_commit checked found grown (supplied_sid ast) _

theorem insertGhostElseAssign_keeps (checked : Checked ast) (targetName : String) (expr : Exp) :
    Keeps ast (insertGhostElseAssign ast kf stmt targetName expr) := by
  rw [insertGhostElseAssign]
  cases found : ast.getDefinition kf with
  | none => exact keeps_of_refusal checked _
  | some fundec =>
      dsimp only
      split
      case h_1 => exact keeps_of_refusal checked _
      case h_3 => exact keeps_of_refusal checked _
      case h_2 =>
        split
        case h_1 => exact keeps_of_refusal checked _
        case h_2 vi target =>
          split
          case h_1 => exact keeps_of_refusal checked _
          case h_2 body made =>
            have grown := fillElse_grown (piece_of_instr rfl rfl rfl) made
            exact keeps_of_commit checked found grown (supplied_sid ast) _

/-- The removal of a loop and of its counter gives the globals back. -/
theorem rollbackLoop_globals (checked : Checked ast) {fundec : Fundec} {body : Block}
    (found : ast.getDefinition kf = some fundec) (line : Nat) (loop : GhostLoop)
    (inserted : insertInBlock stmt.sid (loopCode ast line loop).block [] fundec.sbody = some body) :
    (rollbackLoop (commitBodyEdit (ast.advance 1 8) kf body [(loopCode ast line loop).vi]) kf
      (loopCode ast line loop)).globals = ast.globals := by
  have member := mem_of_getDefinition found
  have removed : removeFromBlock [(loopCode ast line loop).block.sid] body = fundec.sbody := by
    refine removeFromBlock_inserted (checked.nodup_sids found) (fun inside => ?_) inserted
    exact absurd (checked.sids fundec member _ inside) (Nat.not_lt.mpr (Nat.le_add_right _ 7))
  have kept : (fundec.slocals ++ [(loopCode ast line loop).vi]).filter
      (fun vi => vi.vid ≠ (loopCode ast line loop).vi.vid) = fundec.slocals := by
    rw [List.filter_append, List.filter_eq_self.mpr, List.filter_singleton]
    · simp
    · intro vi listed
      have small := checked.locals fundec member vi (List.mem_append_left _ listed)
      exact decide_eq_true small.ne
  have twice := @updateFundec_updateFundec (ast.advance 1 8) kf
    (bodyEdit body [(loopCode ast line loop).vi]) (fun fundec =>
      { fundec with
        sbody := removeFromBlock [(loopCode ast line loop).block.sid] fundec.sbody
        slocals := fundec.slocals.filter fun vi => vi.vid ≠ (loopCode ast line loop).vi.vid })
    fun _ => rfl
  refine (congrArg Ast.globals twice).trans (updateFundec_eq_self fun other there here => ?_)
  obtain rfl := checked.eq_definition found there here
  simp only [bodyEdit, removed, kept]

/-- The kernel takes the typed annotations of a loop that has been placed. -/
def AnnotsTaken (ast : Ast) (kf : Varinfo) (stmt : StmtRef) (loop : GhostLoop) : Prop :=
  ∀ fundec edited, ast.getDefinition kf = some fundec → isValidCIdentifier loop.varName = true →
    isLocalOrFormal fundec loop.varName = false →
    placeLoop ast kf fundec stmt (loopCode ast stmt.line loop) = some edited →
    typeLoopAnnots edited kf (loopCode ast stmt.line loop) loop = .ok () →
    insertLoopAnnots edited kf (loopCode ast stmt.line loop) loop = .ok ()

theorem insertGhostLoop_keeps (checked : Checked ast) (loop : GhostLoop)
    (taken : AnnotsTaken ast kf stmt loop) : Keeps ast (insertGhostLoop ast kf stmt loop) := by
  rw [insertGhostLoop]
  cases found : ast.getDefinition kf with
  | none => exact keeps_of_refusal checked _
  | some fundec =>
      dsimp only
      split_ifs with invalid known
      · exact keeps_of_refusal checked _
      · exact keeps_of_refusal checked _
      · split
        case h_1 => exact keeps_of_advance checked _ 1 8
        case h_2 edited placed =>
          obtain ⟨body, inserted, rfl⟩ := Option.map_eq_some_iff.mp placed
          split
          case h_1 message refused =>
            refine keeps_of_error checked message
              (rollbackLoop_globals kf stmt checked found stmt.line loop inserted) ?_ ?_
            · exact Nat.le_add_right _ 1
            · exact Nat.le_add_right _ 8
          case h_2 typed =>
            have valid : isValidCIdentifier loop.varName = true := by
              rwa [Bool.not_eq_true', Bool.not_eq_false] at invalid
            rw [taken fundec _ found valid (Bool.eq_false_iff.mpr known) placed typed]
            have grown := insertInBlock_grown (piece_of_loop ast stmt.line loop)
              (checked.nodup_sids found) inserted
            exact keeps_of_commit checked found grown (supplied_loop ast stmt.line loop) _

end BodyEdits

section Globals

variable {ast : Ast}

theorem filterMap_append_one {Entry : Type} (read : Global → Option Entry) (globals : List Global)
    (new : Global) : (globals ++ [new]).filterMap read =
      globals.filterMap read ++ (read new).toList := by
  rw [List.filterMap_append]
  cases found : read new <;> simp [found]

theorem findSome_append_one {Entry : Type} (read : Global → Option Entry) (globals : List Global)
    (new : Global) : (globals ++ [new]).findSome? read = (globals.findSome? read).or (read new) := by
  rw [List.findSome?_append]
  cases found : read new <;> simp [found]

/-- A new variable adds no function. -/
theorem fundecs_append_var (vi : Varinfo) (init : Option Exp) :
    fundecs (ast.globals ++ [.gvar vi init]) = fundecs ast.globals := by
  rw [fundecs, filterMap_append_one]
  exact List.append_nil _

theorem arityOf_append_var (vi : Varinfo) (init : Option Exp) (vid : Nat) :
    arityOf (ast.globals ++ [.gvar vi init]) vid = arityOf ast.globals vid := by
  have none : declaredArity vid (.gvar vi init) = none := rfl
  rw [arityOf, arityOf, fundecs_append_var, findSome_append_one, none, Option.or_none]

theorem addVar_checked (checked : Checked ast) (vi : Varinfo) (init : Option Exp) :
    Checked { ast.advance 1 0 with globals := ast.globals ++ [.gvar vi init] } where
  definitions := by
    rw [fundecs_append_var]
    exact checked.definitions
  sids := by
    rw [fundecs_append_var]
    exact checked.sids
  locals := by
    rw [fundecs_append_var]
    exact fun fundec member vi inside =>
      (checked.locals fundec member vi inside).trans (Nat.lt_succ_self _)
  functions := by
    have none : Global.function? (.gvar vi init) = none := rfl
    rw [filterMap_append_one, none, Option.toList_none, List.append_nil]
    exact fun vi member => (checked.functions vi member).trans (Nat.lt_succ_self _)
  callees := by
    rw [fileCalls, fundecs_append_var]
    exact fun site member => (checked.callees site member).trans (Nat.lt_succ_self _)
  wellFormed := by
    constructor
    case sids =>
      rw [fileSids, fundecs_append_var]
      exact checked.wellFormed.sids
    case locals =>
      rw [fundecs_append_var]
      exact checked.wellFormed.locals
    case calls =>
      rw [fileCalls, fundecs_append_var]
      intro site member
      rw [CallFits, arityOf_append_var]
      exact checked.wellFormed.calls site member

theorem insertGhostGlobal_keeps (checked : Checked ast) (name : String) (typ : Typ)
    (init : Option Exp) : Keeps ast (insertGhostGlobal ast name typ init) := by
  rw [insertGhostGlobal]
  split_ifs
  · exact keeps_of_refusal checked _
  · exact keeps_of_refusal checked _
  · refine ⟨addVar_checked checked _ init, ?_, fun message failed => by cases failed⟩
    dsimp only
    rw [eraseFile, filterMap_append_one, eraseGlobal, if_pos rfl, Option.toList_none,
      List.append_nil, eraseFile]

section Lemmas

variable (spec : LemmaFunction)

theorem fundecs_addLemma :
    fundecs (addLemma ast spec).globals = fundecs ast.globals ++ [lemmaFundec ast spec] :=
  filterMap_append_one Global.fundec? ast.globals (.gfun (lemmaFundec ast spec))

/-- A function that stood in the file has an older number than the lemma. -/
theorem svar_lt (numbered : Numbered ast) {fundec : Fundec} (member : fundec ∈ fundecs ast.globals) :
    fundec.svar.vid < ast.nextVid :=
  numbered.functions fundec.svar
    (List.mem_filterMap.mpr ⟨.gfun fundec, mem_fundecs.mp member, rfl⟩)

theorem arityOf_addLemma_old {vid : Nat} (old : vid < ast.nextVid) :
    arityOf (addLemma ast spec).globals vid = arityOf ast.globals vid := by
  have other : (lemmaFundec ast spec).svar.vid ≠ vid := old.ne'
  have notLemma : [lemmaFundec ast spec].find? (fun fundec => fundec.svar.vid == vid) =
      none := by
    rw [List.find?_cons_of_neg (by simpa using other), List.find?_nil]
  rw [arityOf, arityOf, fundecs_addLemma, List.find?_append, notLemma, Option.or_none]
  have declared := findSome_append_one (declaredArity vid) ast.globals
    (.gfun (lemmaFundec ast spec))
  have none : declaredArity vid (.gfun (lemmaFundec ast spec)) = none := rfl
  rw [none, Option.or_none] at declared
  rw [← declared]
  rfl

theorem arityOf_addLemma_own (numbered : Numbered ast) :
    arityOf (addLemma ast spec).globals ast.nextVid = some ⟨1, false⟩ := by
  have absent : (fundecs ast.globals).find? (fun fundec => fundec.svar.vid == ast.nextVid) =
      none := by
    refine List.find?_eq_none.mpr fun fundec member same => ?_
    exact absurd (svar_lt numbered member) (Nat.not_lt.mpr (beq_iff_eq.mp same).ge)
  have own : [lemmaFundec ast spec].find? (fun fundec => fundec.svar.vid == ast.nextVid) =
      some (lemmaFundec ast spec) := List.find?_cons_of_pos (beq_self_eq_true ast.nextVid)
  rw [arityOf, fundecs_addLemma, List.find?_append, absent, Option.none_or, own]
  rfl

theorem sids_lemma : (lemmaFundec ast spec).sbody.sids =
    [ast.nextSid + 1, ast.nextSid, ast.nextSid + 2] := rfl

/-- The lemma calls itself with one argument. -/
theorem calls_lemma : ∀ site ∈ bodyCalls (lemmaFundec ast spec).sbody,
    site.callee.vid = ast.nextVid ∧ site.actuals.length = 1 := by
  intro site member
  obtain rfl := List.mem_singleton.mp member
  exact ⟨rfl, rfl⟩

theorem fileCalls_addLemma : fileCalls (addLemma ast spec).globals =
    fileCalls ast.globals ++ bodyCalls (lemmaFundec ast spec).sbody := by
  rw [fileCalls, fundecs_addLemma, List.flatMap_append, List.flatMap_singleton, fileCalls]

theorem addLemma_numbered (numbered : Numbered ast) : Numbered (addLemma ast spec) where
  definitions := by
    rw [fundecs_addLemma, List.map_append, List.nodup_append]
    refine ⟨numbered.definitions, List.nodup_singleton _, fun vid old other new same => ?_⟩
    obtain ⟨fundec, member, rfl⟩ := List.mem_map.mp old
    obtain rfl := List.mem_singleton.mp new
    exact absurd same (svar_lt numbered member).ne
  sids := by
    rw [fundecs_addLemma]
    refine List.forall_mem_append.mpr ⟨fun fundec member sid inside => ?_,
      List.forall_mem_singleton.mpr fun sid inside => ?_⟩
    · exact (numbered.sids fundec member sid inside).trans_le (Nat.le_add_right _ 3)
    · have below : sid < ast.nextSid + 3 := by
        rw [sids_lemma] at inside
        simp only [List.mem_cons, List.not_mem_nil, or_false] at inside
        omega
      exact below
  locals := by
    rw [fundecs_addLemma]
    refine List.forall_mem_append.mpr ⟨fun fundec member vi inside => ?_,
      List.forall_mem_singleton.mpr fun vi inside => ?_⟩
    · exact (numbered.locals fundec member vi inside).trans_le (Nat.le_add_right _ 2)
    · exact absurd inside List.not_mem_nil
  functions := by
    intro vi member
    have all := filterMap_append_one Global.function? ast.globals (.gfun (lemmaFundec ast spec))
    rw [addLemma, all] at member
    rcases List.mem_append.mp member with old | new
    · exact (numbered.functions vi old).trans_le (Nat.le_add_right _ 2)
    · obtain rfl := List.mem_singleton.mp new
      exact Nat.lt_add_of_pos_right Nat.two_pos
  callees := by
    rw [fileCalls_addLemma]
    refine List.forall_mem_append.mpr ⟨fun site member => ?_, fun site member => ?_⟩
    · exact (numbered.callees site member).trans_le (Nat.le_add_right _ 2)
    · rw [(calls_lemma spec site member).1]
      exact Nat.lt_add_of_pos_right Nat.two_pos

theorem addLemma_checked (checked : Checked ast) : Checked (addLemma ast spec) where
  toNumbered := addLemma_numbered spec checked.toNumbered
  wellFormed := by
    constructor
    case sids =>
      rw [fileSids, fundecs_addLemma, List.flatMap_append, List.flatMap_singleton,
        List.nodup_append]
      refine ⟨checked.wellFormed.sids, ?_, fun sid old other new same => ?_⟩
      · rw [sids_lemma]
        simp
      · obtain ⟨fundec, member, inside⟩ := List.mem_flatMap.mp old
        have small := checked.sids fundec member sid inside
        rw [sids_lemma] at new
        simp only [List.mem_cons, List.not_mem_nil, or_false] at new
        omega
    case locals =>
      rw [fundecs_addLemma]
      exact List.forall_mem_append.mpr ⟨checked.wellFormed.locals,
        List.forall_mem_singleton.mpr (listed_of_quiet rfl)⟩
    case calls =>
      rw [fileCalls_addLemma]
      refine List.forall_mem_append.mpr ⟨fun site member => ?_, fun site member => ?_⟩
      · rw [CallFits, arityOf_addLemma_old spec (checked.callees site member)]
        exact checked.wellFormed.calls site member
      · obtain ⟨callee, actuals⟩ := calls_lemma spec site member
        rw [CallFits, callee, arityOf_addLemma_own spec checked.toNumbered, actuals]
        intro arity known
        obtain rfl := Option.some.inj known
        exact rfl

theorem eraseFile_addLemma : eraseFile (addLemma ast spec).globals = eraseFile ast.globals := by
  have erased := filterMap_append_one eraseGlobal ast.globals (.gfun (lemmaFundec ast spec))
  exact erased.trans (List.append_nil _)

/-- The rollback gives the globals back. -/
theorem rollbackLemma_globals (numbered : Numbered ast) :
    (rollbackLemma (addLemma ast spec) (lemmaFundec ast spec).svar.vid).globals = ast.globals := by
  have kept : ast.globals.filter (fun global =>
      !isFunction (lemmaFundec ast spec).svar.vid global) = ast.globals := by
    refine List.filter_eq_self.mpr fun global member => ?_
    rw [isFunction]
    cases found : global.function? with
    | none => rfl
    | some vi =>
        have small := numbered.functions vi (List.mem_filterMap.mpr ⟨global, member, found⟩)
        have other : vi.vid ≠ (lemmaFundec ast spec).svar.vid := small.ne
        simpa using other
  have gone : [Global.gfun (lemmaFundec ast spec)].filter (fun global =>
      !isFunction (lemmaFundec ast spec).svar.vid global) = [] := by
    rw [List.filter_singleton, isFunction, Global.function?, Option.any_some, beq_self_eq_true]
    rfl
  rw [rollbackLemma, addLemma, List.filter_append, kept, gone, List.append_nil]

variable [Kernel]

/-- The kernel raises no exception while it takes the typed contract of a lemma function. -/
def ContractTaken (ast : Ast) (spec : LemmaFunction) : Prop :=
  isValidCIdentifier spec.name = true → isValidCIdentifier spec.paramName = true →
    ast.findFunction spec.name = none → ast.findGlobalVar spec.name = none →
    Kernel.typeSpec (addLemma ast spec) (lemmaFundec ast spec).svar (lemmaContract spec) = .ok () →
    ∀ exception, Kernel.insertSpec (addLemma ast spec) (lemmaFundec ast spec).svar
      (lemmaContract spec) ≠ .raised exception

theorem insertGhostLemmaFunction_keeps (checked : Checked ast) (taken : ContractTaken ast spec) :
    Keeps ast (insertGhostLemmaFunction ast spec) := by
  have undone (message : String) : Keeps ast
      (.error message, rollbackLemma (addLemma ast spec) (lemmaFundec ast spec).svar.vid) :=
    keeps_of_error checked message (rollbackLemma_globals spec checked.toNumbered)
      (Nat.le_add_right _ 2) (Nat.le_add_right _ 3)
  rw [insertGhostLemmaFunction]
  split_ifs with invalid invalidParam aFunction aVariable
  · exact keeps_of_refusal checked _
  · exact keeps_of_refusal checked _
  · exact keeps_of_refusal checked _
  · exact keeps_of_refusal checked _
  · dsimp only
    cases typed : Kernel.typeSpec (addLemma ast spec) (lemmaFundec ast spec).svar
      (lemmaContract spec) with
    | error message => exact undone message
    | ok =>
        dsimp only
        cases inserted : Kernel.insertSpec (addLemma ast spec) (lemmaFundec ast spec).svar
          (lemmaContract spec) with
        | refused message => exact undone message
        | raised exception =>
            rw [Bool.not_eq_true', Bool.not_eq_false] at invalid invalidParam
            rw [Bool.not_eq_true, Option.isSome_eq_false_iff, Option.isNone_iff_eq_none]
              at aFunction aVariable
            exact absurd inserted (taken invalid invalidParam aFunction aVariable typed exception)
        | accepted =>
            exact ⟨addLemma_checked spec checked, eraseFile_addLemma spec,
              fun message failed => by cases failed⟩

end Lemmas

end Globals

section Formals

variable {ast : Ast} {kf : Varinfo} {fundec : Fundec}

def formalEdit (formals : List Varinfo) (fundec : Fundec) : Fundec :=
  { fundec with sformals := formals }

/-- The arity of the edited function is read from its definition. -/
theorem arityOf_edited {edit : Fundec → Fundec} (keeps : ∀ fundec, (edit fundec).svar = fundec.svar)
    (found : ast.getDefinition kf = some fundec) :
    arityOf (ast.updateFundec kf edit).globals kf.vid = some (fundecArity (edit fundec)) := by
  have vids (fundec : Fundec) : (if fundec.svar.vid = kf.vid then edit fundec
      else fundec).svar.vid = fundec.svar.vid := by
    split_ifs
    · rw [keeps]
    · rfl
  have here : fundec.svar.vid = kf.vid :=
    beq_iff_eq.mp (List.find?_eq_some_iff_append.mp found).1
  rw [Ast.getDefinition] at found
  rw [arityOf, fundecs_updateFundec, List.find?_map]
  simp only [Function.comp_def, vids, found, Option.map_some, if_pos here, Option.some_or]

/-- Further formals change neither the bodies nor the locals of the file. -/
theorem addFormal_checked (checked : Checked ast) (found : ast.getDefinition kf = some fundec)
    (formals : List Varinfo)
    (fits : ∀ site ∈ fileCalls ast.globals, site.callee.vid = kf.vid →
      (Arity.mk formals.length fundec.variadic).Fits site.actuals.length) :
    Checked ((ast.advance 1 0).updateFundec kf (formalEdit formals)) := by
  have numbered := checked.toNumbered
  have edited : fundecs ((ast.advance 1 0).updateFundec kf (formalEdit formals)).globals =
      (fundecs ast.globals).map fun fundec =>
        if fundec.svar.vid = kf.vid then formalEdit formals fundec else fundec :=
    fundecs_updateFundec
  have svars (other : Fundec) : (if other.svar.vid = kf.vid then formalEdit formals other
      else other).svar = other.svar := by split_ifs <;> rfl
  have locals (other : Fundec) : (if other.svar.vid = kf.vid then formalEdit formals other
      else other).slocals = other.slocals := by split_ifs <;> rfl
  have bodies (other : Fundec) : (if other.svar.vid = kf.vid then formalEdit formals other
      else other).sbody = other.sbody := by split_ifs <;> rfl
  have calls : fileCalls ((ast.advance 1 0).updateFundec kf (formalEdit formals)).globals =
      fileCalls ast.globals := by
    rw [fileCalls, edited, List.flatMap_map]
    simp only [bodies]
    rfl
  constructor
  case toNumbered =>
    constructor
    case definitions =>
      rw [edited, List.map_map]
      simp only [Function.comp_def, svars]
      exact numbered.definitions
    case sids =>
      rw [edited]
      refine List.forall_mem_map.mpr fun other member => ?_
      rw [bodies]
      exact numbered.sids other member
    case locals =>
      rw [edited]
      refine List.forall_mem_map.mpr fun other member vi inside => ?_
      rw [bodies, locals] at inside
      exact (numbered.locals other member vi inside).trans (Nat.lt_succ_self _)
    case functions =>
      have same : ((ast.advance 1 0).updateFundec kf (formalEdit formals)).globals.filterMap
          Global.function? = ast.globals.filterMap Global.function? :=
        filterMap_updateFundec fun _ _ _ => rfl
      rw [same]
      exact fun vi member => (numbered.functions vi member).trans (Nat.lt_succ_self _)
    case callees =>
      rw [calls]
      exact fun site member => (numbered.callees site member).trans (Nat.lt_succ_self _)
  case wellFormed =>
    constructor
    case sids =>
      rw [fileSids, edited, List.flatMap_map]
      simp only [bodies]
      exact checked.wellFormed.sids
    case locals =>
      rw [edited]
      refine List.forall_mem_map.mpr fun other member => ?_
      rw [FundecListed, bodies, locals]
      exact checked.wellFormed.locals other member
    case calls =>
      rw [calls]
      intro site member
      by_cases here : site.callee.vid = kf.vid
      · have arity := @arityOf_edited (ast.advance 1 0) kf fundec (formalEdit formals)
          (fun _ => rfl) found
        rw [CallFits, here, arity]
        intro known same
        obtain rfl := Option.some.inj same
        exact fits site member here
      · have same : arityOf ((ast.advance 1 0).updateFundec kf (formalEdit formals)).globals
            site.callee.vid = arityOf ast.globals site.callee.vid :=
          arityOf_updateFundec (fun _ => rfl) fun other callee edits =>
            absurd (callee.symm.trans edits) here
        rw [CallFits, same]
        exact checked.wellFormed.calls site member

/-- Every call of the function passes as many arguments as it has formals with the new one. -/
def CallsReady [Kernel] (ast : Ast) (kf : Varinfo) (name : String) (typ : Typ) (place : String) :
    Prop :=
  ∀ fundec formals, isValidCIdentifier name = true → ast.getDefinition kf = some fundec →
    isLocalOrFormal fundec name = false →
    Kernel.makeFormalVar fundec.sformals
      { vid := ast.nextVid, vname := name, vtype := typ, vghost := true } place = .ok formals →
    ∀ site ∈ fileCalls ast.globals, site.callee.vid = kf.vid →
      (Arity.mk formals.length fundec.variadic).Fits site.actuals.length

theorem insertGhostFormal_keeps [Kernel] (checked : Checked ast) (name : String) (typ : Typ)
    (place : String) (ready : CallsReady ast kf name typ place) :
    Keeps ast (insertGhostFormal ast kf name typ place) := by
  rw [insertGhostFormal]
  split_ifs with invalid
  · exact keeps_of_refusal checked _
  · cases found : ast.getDefinition kf with
    | none => exact keeps_of_refusal checked _
    | some fundec =>
        dsimp only
        split_ifs with known
        · exact keeps_of_refusal checked _
        · split
          case h_1 => exact keeps_of_advance checked _ 1 0
          case h_2 formals made =>
            rw [Bool.not_eq_true', Bool.not_eq_false] at invalid
            have fits := ready fundec formals invalid found (Bool.eq_false_iff.mpr known) made
            refine ⟨addFormal_checked checked found formals fits, ?_, fun _ failed => by cases failed⟩
            refine filterMap_updateFundec fun other member here => ?_
            obtain rfl := checked.eq_definition found member here
            obtain ⟨before, after, old, rfl⟩ := Kernel.makeFormalVar_ok _ _ _ _ made
            simp [eraseGlobal, eraseFundec, withoutGhosts, old]

end Formals

end FramaCMcp.Ghost

namespace FramaCMcp.Ghost

open Cil

section Runs

/-- A success leaves a well-formed file with the original code without ghosts, and an error leaves
the file. -/
def Safe (original : List Global) (before : Ast) (outcome : Outcome) : Prop :=
  match outcome.1 with
  | .ok _ => WellFormed outcome.2.globals ∧ eraseFile outcome.2.globals = eraseFile original
  | .error _ => outcome.2.globals = before.globals

theorem Keeps.safe {original : List Global} {ast : Ast} {outcome : Outcome}
    (keeps : Keeps ast outcome) (same : eraseFile ast.globals = eraseFile original) :
    Safe original ast outcome := by
  rw [Safe]
  cases reported : outcome.1 with
  | ok inserted => exact ⟨keeps.checked.wellFormed, keeps.erased.trans same⟩
  | error message => exact keeps.restored message reported

variable [Kernel]

/-- This condition on the state before an insertion keeps the file well formed. -/
def Meets (ast : Ast) : Insertion → Prop
  | .formal kf name typ place => CallsReady ast kf name typ place
  | .lemmaFunction spec => ContractTaken ast spec
  | .loop kf stmt loop => AnnotsTaken ast kf stmt loop
  | _ => True

theorem insert_keeps {ast : Ast} (checked : Checked ast) (insertion : Insertion)
    (meets : Meets ast insertion) : Keeps ast (insert ast insertion) := by
  cases insertion with
  | global name typ init => exact insertGhostGlobal_keeps checked name typ init
  | lemmaFunction spec => exact insertGhostLemmaFunction_keeps spec checked meets
  | formal kf name typ place => exact insertGhostFormal_keeps checked name typ place meets
  | decl kf stmt varName typ initExp => exact insertGhostDecl_keeps kf stmt checked varName typ initExp
  | assign kf stmt targetName expr => exact insertGhostAssign_keeps kf stmt checked targetName expr
  | elseAssign kf ifStmt targetName expr =>
      exact insertGhostElseAssign_keeps kf ifStmt checked targetName expr
  | loop kf stmt loop => exact insertGhostLoop_keeps kf stmt checked loop meets
  | label kf stmt labelName => exact insertGhostLabel_keeps kf stmt checked labelName

def SafeRun (original : List Global) : Ast → List Insertion → Prop
  | _, [] => True
  | ast, insertion :: rest =>
      Safe original ast (insert ast insertion) ∧ SafeRun original (insert ast insertion).2 rest

def MeetsRun : Ast → List Insertion → Prop
  | _, [] => True
  | ast, insertion :: rest => Meets ast insertion ∧ MeetsRun (insert ast insertion).2 rest

theorem safeRun_of_meets (original : List Global) (insertions : List Insertion) (ast : Ast)
    (checked : Checked ast) (same : eraseFile ast.globals = eraseFile original)
    (meets : MeetsRun ast insertions) : SafeRun original ast insertions := by
  induction insertions generalizing ast with
  | nil => trivial
  | cons insertion rest ih =>
      have keeps := insert_keeps checked insertion meets.1
      exact ⟨keeps.safe same, ih _ keeps.checked (keeps.erased.trans same) meets.2⟩

/-- Every run of insertions that meet the condition keeps the file well formed. -/
theorem insertions_safe_of_meets (file : CheckedFile) (insertions : List Insertion)
    (meets : MeetsRun file.ast insertions) :
    SafeRun file.ast.globals file.ast insertions :=
  safeRun_of_meets file.ast.globals insertions file.ast file.checked rfl meets

end Runs

section Instances

/-- A kernel that takes everything puts a new formal behind the others. -/
@[reducible] def plainKernel : Kernel where
  typeOf := fun _ => "int"
  makeFormalVar := fun formals vi _ => .ok (formals ++ [vi])
  makeFormalVar_ok := fun formals _ _ _ same =>
    ⟨formals, [], (List.append_nil formals).symm, (Except.ok.inj same).symm⟩
  typeSpec := fun _ _ _ => .ok ()
  insertSpec := fun _ _ _ => .accepted
  typeAnnot := fun _ _ _ _ => .ok ()
  insertAnnots := fun _ _ _ _ => .ok ()

def calleeVar : Varinfo := { vid := 0, vname := "f", vtype := "void (int)", vglob := true }

def argument : Varinfo := { vid := 1, vname := "x", vtype := "int" }

def callee : Fundec where
  svar := calleeVar
  sformals := [argument]
  slocals := []
  sbody := .mk [] [.jump { sid := 0 } "return"]

/-- Nothing calls the function. -/
def calmFile : CheckedFile where
  ast := { globals := [.gfun callee], nextVid := 2, nextSid := 1 }
  checked :=
    { definitions := by decide
      sids := by decide
      locals := by decide
      functions := by decide
      callees := by decide
      wellFormed :=
        { sids := by decide
          locals := List.forall_mem_singleton.mpr (listed_of_quiet rfl)
          calls := fun _ member => absurd member List.not_mem_nil } }

def caller : Fundec where
  svar := { vid := 2, vname := "main", vtype := "void (void)", vglob := true }
  sformals := []
  slocals := []
  sbody := .mk [] [.instr { sid := 1 } (.call none (.var calleeVar) [.const "1"] 3),
    .jump { sid := 2 } "return"]

def calledFile : CheckedFile where
  ast := { globals := [.gfun callee, .gfun caller], nextVid := 3, nextSid := 3 }
  checked :=
    { definitions := by decide
      sids := by decide
      locals := by decide
      functions := by decide
      callees := by decide
      wellFormed :=
        { sids := by decide
          locals := List.forall_mem_cons.mpr ⟨listed_of_quiet rfl,
            List.forall_mem_singleton.mpr (listed_of_quiet rfl)⟩
          calls := List.forall_mem_singleton.mpr fun _ known =>
            Option.some.inj known ▸ by decide } }

/-- These insertions add a formal, a local, an assignment, a label, a loop and a lemma. -/
def calmInsertions : List Insertion :=
  [.global "total" "int" (some (.const "0")),
    .formal calleeVar "bound" "int" "",
    .decl calleeVar ⟨0, 2⟩ "count" "int" (.const "0"),
    .assign calleeVar ⟨0, 2⟩ "count" (.const "1"),
    .label calleeVar ⟨0, 2⟩ "Start",
    .loop calleeVar ⟨0, 2⟩ { varName := "i", typ := "int", initExp := .const "0",
                             stopExp := .const "3", stepExp := .const "1", invariant := "0 <= i",
                             assigns := "i", variant := "3 - i", assertPred := "i >= 3" },
    .lemmaFunction { name := "sum", paramName := "n", paramTyp := "int", requires := "n >= 0",
                     decreases := "n", assigns := "\\nothing", ensures := "\\true" }]

theorem insertions_safe_of_calm :
    @SafeRun plainKernel calmFile.ast.globals calmFile.ast calmInsertions :=
  @insertions_safe_of_meets plainKernel calmFile calmInsertions
    ⟨trivial, fun _ _ _ _ _ _ _ member _ => absurd member List.not_mem_nil, trivial, trivial,
      trivial, fun _ _ _ _ _ _ _ => rfl, fun _ _ _ _ _ _ => Answer.noConfusion, trivial⟩

/-- The call passes one argument to a function with two formals. -/
theorem not_insertions_safe :
    ¬ ∀ [Kernel] (file : CheckedFile) (insertions : List Insertion),
      SafeRun file.ast.globals file.ast insertions := by
  intro safe
  have first := (@safe plainKernel calledFile [.formal calleeVar "bound" "int" ""]).1
  have formed : WellFormed
      (@insert plainKernel calledFile.ast (.formal calleeVar "bound" "int" "")).2.globals := first.1
  have fits := formed.calls ⟨calleeVar, [.const "1"]⟩ List.mem_cons_self ⟨2, false⟩ rfl
  exact absurd fits (by decide)

end Instances

end FramaCMcp.Ghost
