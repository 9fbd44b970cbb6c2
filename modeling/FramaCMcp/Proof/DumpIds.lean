/-
This file gives the blocks of ids that a dump of statements takes.
-/

import FramaCMcp.Construction.FcilDump

namespace FramaCMcp.Export

variable {Others : Type}

section Resources

/-- A conversion takes blocks of ids from the source, makes up some ids and registers names. -/
structure Uses where
  spans : List Span := []
  synths : Nat := 0
  enums : List String := []

namespace Uses

instance : Append Uses where
  append first second :=
    ⟨first.spans ++ second.spans, first.synths + second.synths, first.enums ++ second.enums⟩

def names (enums : List String) : Uses where
  enums := enums

def block (start : Int) (length : Nat) : Uses where
  spans := [⟨start, length⟩]

def synth : Uses where
  synths := 1

/-- These are the ids that are taken where `counter` ids are made up already. -/
def ids (uses : Uses) (counter : Nat) : Multiset Int :=
  ↑(uses.spans.flatMap Span.numbers) +
    ↑(Span.numbers ⟨synthBase + (counter : Int), uses.synths⟩)

@[simp] theorem spans_append (first second : Uses) :
    (first ++ second).spans = first.spans ++ second.spans := rfl

@[simp] theorem synths_append (first second : Uses) :
    (first ++ second).synths = first.synths + second.synths := rfl

@[simp] theorem enums_append (first second : Uses) :
    (first ++ second).enums = first.enums ++ second.enums := rfl

theorem append_eq (first second : Uses) : first ++ second =
    ⟨first.spans ++ second.spans, first.synths + second.synths, first.enums ++ second.enums⟩ := rfl

theorem append_assoc (first second third : Uses) :
    first ++ second ++ third = first ++ (second ++ third) := by
  cases first
  cases second
  cases third
  simp only [append_eq, List.append_assoc, add_assoc]

theorem ids_append (first second : Uses) (counter : Nat) :
    (first ++ second).ids counter = first.ids counter + second.ids (counter + first.synths) := by
  have behind : synthBase + ((counter + first.synths : Nat) : Int) =
      synthBase + (counter : Int) + (first.synths : Int) := by
    push_cast
    exact (add_assoc _ _ _).symm
  simp only [ids, spans_append, synths_append, List.flatMap_append, Span.numbers_add, behind,
    ← Multiset.coe_add]
  exact add_add_add_comm _ _ _ _

@[simp] theorem ids_names (enums : List String) (counter : Nat) :
    (names enums).ids counter = 0 := by
  simp [ids, names, Span.numbers]

@[simp] theorem ids_block (start : Int) (length counter : Nat) :
    (block start length).ids counter = ↑(Span.numbers ⟨start, length⟩) := by
  simp [ids, block, Span.numbers]

@[simp] theorem ids_synth (counter : Nat) : synth.ids counter = {synthBase + (counter : Int)} := by
  simp [ids, synth, Span.numbers]

end Uses

/-- The conversion takes exactly what is given, and `taken` are its ids. -/
structure Takes (uses : Uses) (before after : IdentTable Others) (taken : Multiset Int) : Prop where
  enums : after.enums = before.enums.register enumBase uses.enums
  synths : after.synthStmtCounter = before.synthStmtCounter + uses.synths
  ids : taken = uses.ids before.synthStmtCounter

namespace Takes

variable {before middle after : IdentTable Others}

theorem none (table : IdentTable Others) : Takes {} table table 0 where
  enums := rfl
  synths := rfl
  ids := by simp [Uses.ids, Span.numbers]

theorem trans {first second : Uses} {left right : Multiset Int}
    (takes : Takes first before middle left) (next : Takes second middle after right) :
    Takes (first ++ second) before after (left + right) where
  enums := by rw [next.enums, takes.enums, Uses.enums_append, Interner.register_append]
  synths := by rw [next.synths, takes.synths, Uses.synths_append, add_assoc]
  ids := by rw [takes.ids, next.ids, takes.synths, Uses.ids_append]

theorem block (table : IdentTable Others) (start : Int) (length : Nat) :
    Takes (.block start length) table table ↑(Span.numbers ⟨start, length⟩) where
  enums := rfl
  synths := rfl
  ids := (Uses.ids_block _ _ _).symm

theorem sid (table : IdentTable Others) (sid : Int) : Takes (.block sid 1) table table {sid} := by
  have single := block table sid 1
  rwa [Span.numbers_single, Multiset.coe_singleton] at single

theorem synth (table : IdentTable Others) :
    Takes .synth table (synthStmtId table).2 {(synthStmtId table).1} where
  enums := rfl
  synths := rfl
  ids := (Uses.ids_synth _).symm

theorem names {enums : List String}
    (registered : after.enums = before.enums.register enumBase enums)
    (kept : after.synthStmtCounter = before.synthStmtCounter) :
    Takes (.names enums) before after 0 where
  enums := registered
  synths := kept
  ids := (Uses.ids_names _ _).symm

theorem congr {uses : Uses} {left right : Multiset Int} (takes : Takes uses before after left)
    (same : left = right) : Takes uses before after right := same ▸ takes

end Takes

/-- These are the ids of a converted statement in any order. -/
def StmtJson.ids (json : StmtJson) : Multiset Int := ↑json.siIds

namespace StmtJson

variable (frame : Frame) (kind : Kind) (siId : Int)

@[simp] theorem ids_skip : skip.ids = 0 := rfl

@[simp] theorem ids_leaf : (leaf siId frame kind).ids = {siId} := rfl

@[simp] theorem ids_node (name : String) (inner : StmtJson) :
    (node siId frame kind name inner).ids = {siId} + inner.ids := rfl

@[simp] theorem ids_fork (first second : String) (left right : StmtJson) :
    (fork siId frame kind first left second right).ids = {siId} + (left.ids + right.ids) := rfl

end StmtJson

end Resources

section Pieces

theorem takes_convert (piece : Piece Others) (table : IdentTable Others) :
    Takes (.names piece.enums) table (piece.convert table).2 0 := .names rfl rfl

theorem takes_convertAll (pieces : List (Piece Others)) (table : IdentTable Others) :
    Takes (.names (pieces.flatMap Piece.enums)) table (convertAll pieces table).2 0 := by
  induction pieces generalizing table with
  | nil => exact .names rfl rfl
  | cons piece rest ih => exact (takes_convert piece table).trans (ih _)

/-- The last field comes first. -/
def fieldEnums (fields : List (String × Piece Others)) : List String :=
  fields.reverse.flatMap fun field => field.2.enums

theorem takes_convertFields (fields : List (String × Piece Others)) (table : IdentTable Others) :
    Takes (.names (fieldEnums fields)) table (convertFields fields table).2 0 := by
  induction fields generalizing table with
  | nil => exact .names rfl rfl
  | cons field rest ih =>
      have names : fieldEnums (field :: rest) = fieldEnums rest ++ field.2.enums := by
        simp [fieldEnums]
      rw [names]
      exact (ih table).trans (takes_convert field.2 _)

def assignEnums (assigns : List (Piece Others × Piece Others)) : List String :=
  assigns.flatMap fun assign => fieldEnums (assignFields assign)

theorem takes_assignJsons (assigns : List (Piece Others × Piece Others))
    (table : IdentTable Others) :
    Takes (.names (assignEnums assigns)) table (assignJsons assigns table).2 0 := by
  induction assigns generalizing table with
  | nil => exact .names rfl rfl
  | cons assign rest ih => exact (takes_convertFields (assignFields assign) table).trans (ih _)

theorem length_assignJsons (assigns : List (Piece Others × Piece Others))
    (table : IdentTable Others) : (assignJsons assigns table).1.length = assigns.length := by
  induction assigns generalizing table with
  | nil => rfl
  | cons assign rest ih => exact congrArg (· + 1) (ih _)

end Pieces

section Initializers

variable {frame : Frame}

/-- Each layer takes two ids and the last assignment takes one. -/
theorem siIds_buildSeq (sid : Int) (idx : Nat) (head : Kind) (tail : List Kind) :
    (buildSeq sid frame idx head tail).siIds =
      Span.numbers ⟨synthSid sid idx, 2 * tail.length + 1⟩ := by
  induction tail generalizing idx head with
  | nil => exact (Span.numbers_single _).symm
  | cons next tail ih =>
      have length : 2 * (next :: tail).length + 1 = (2 * tail.length + 1) + 1 + 1 := by
        rw [List.length_cons]
        omega
      have second : synthSid sid (idx + 1) = synthSid sid idx + 1 := by
        simp only [synthSid]
        omega
      have third : synthSid sid (idx + 2) = synthSid sid idx + 1 + 1 := by
        simp only [synthSid]
        omega
      rw [buildSeq, length, Span.numbers_succ, Span.numbers_succ, StmtJson.siIds, StmtJson.siIds,
        ih, second, third]
      rfl

/-- An initializer takes its statement's id and two more for each value behind the first. -/
theorem siIds_chainAssigns (sid : Int) (kinds : List Kind) :
    (chainAssigns sid frame kinds).siIds =
      sid :: Span.numbers ⟨sid * 10000, 2 * kinds.length - 2⟩ := by
  match kinds with
  | [] => rfl
  | [only] => rfl
  | head :: next :: tail =>
      have length : 2 * (head :: next :: tail).length - 2 = (2 * tail.length + 1) + 1 := by
        simp only [List.length_cons]
        omega
      have first : synthSid sid 0 = sid * 10000 := by
        simp only [synthSid]
        omega
      have second : synthSid sid 1 = sid * 10000 + 1 := by
        simp only [synthSid]
        omega
      rw [chainAssigns, length, Span.numbers_succ, StmtJson.siIds, StmtJson.siIds, siIds_buildSeq,
        first, second]
      rfl

end Initializers

section Statements

def Instr.uses (sid : Int) (i : Instr Others) : Uses :=
  match i.plain with
  | some (_, early, fields) =>
      .block sid 1 ++ (.names (fieldEnums early) ++ .names (fieldEnums fields))
  | none => .block sid 1 ++
      (.block (sid * 10000) (2 * i.assigns.length - 2) ++ .names (assignEnums i.assigns))

theorem takes_convertInstr (sid : Int) (frame : Frame) (i : Instr Others)
    (table : IdentTable Others) :
    Takes (i.uses sid) table (convertInstr sid frame i table).2
      (convertInstr sid frame i table).1.ids := by
  rw [Instr.uses, convertInstr]
  cases i.plain with
  | some plain =>
      have converted := (takes_convertFields plain.2.1 table).trans (takes_convertFields plain.2.2 _)
      exact ((Takes.sid table sid).trans converted).congr (add_zero _)
  | none =>
      have chained := (Takes.sid table sid).trans ((Takes.block table (sid * 10000)
        (2 * i.assigns.length - 2)).trans (takes_assignJsons i.assigns table))
      apply chained.congr
      rw [StmtJson.ids, siIds_chainAssigns, length_assignJsons, add_zero]
      rfl

/-- Each annotation takes an id that is made up. -/
def annotUses : List (Piece Others) → Uses
  | [] => {}
  | ca :: rest => annotUses rest ++ .names ca.enums ++ .synth

def leafUses (sid : Int) (fields : List (String × Piece Others)) : Uses :=
  .block sid 1 ++ .names (fieldEnums fields)

mutual

def Stmt.uses : Stmt Others → Uses
  | .mk info skind => .names (info.labels.flatMap Piece.enums) ++
      (skind.uses info.sid ++ annotUses info.annots)

def StmtKind.uses (sid : Int) : StmtKind Others → Uses
  | .instr i => i.uses sid
  | .return e => leafUses sid (e.map fun e => ("e", e)).toList
  | .ite cond thenBlock elseBlock =>
      .block sid 1 ++ (elseBlock.uses ++ thenBlock.uses) ++ .names cond.enums
  | .loop body => .block sid 1 ++ (body.uses ++ {})
  | .block (.mk blocals bstmts) =>
      .names (blocals.flatMap Piece.enums) ++ (.block sid 1 ++ usesOf bstmts)
  | .switch e body => .block sid 1 ++ body.uses ++ .names e.enums
  | .goto target => leafUses sid [("target", target)]
  | .break | .continue | .handler => .block sid 1
  | .unspecifiedSequence seq => .block sid 1 ++ usesOf seq

def Block.uses : Block Others → Uses
  | .mk blocals bstmts =>
      if blocals.isEmpty then usesOf bstmts
      else usesOf bstmts ++ .names (blocals.flatMap Piece.enums) ++ .synth

/-- Each statement behind the first takes an id that is made up. -/
def usesOf : List (Stmt Others) → Uses
  | [] => {}
  | [s] => s.uses
  | s :: next :: rest => s.uses ++ usesOf (next :: rest) ++ .synth

end

theorem takes_wrapAnnots {uses : Uses} {table : IdentTable Others} (loc : Json)
    {base : StmtJson × IdentTable Others} (takes : Takes uses table base.2 base.1.ids)
    (annots : List (Piece Others)) :
    Takes (uses ++ annotUses annots) table (wrapAnnots loc base annots).2
      (wrapAnnots loc base annots).1.ids := by
  induction annots with
  | nil => exact (takes.trans (.none _)).congr (add_zero _)
  | cons ca rest ih =>
      have whole := (ih.trans (takes_convert ca _)).trans (.synth _)
      rw [add_zero, add_comm] at whole
      have order : uses ++ annotUses (ca :: rest) =
          uses ++ annotUses rest ++ .names ca.enums ++ .synth := by
        rw [annotUses, Uses.append_assoc, Uses.append_assoc, Uses.append_assoc]
      rw [order]
      exact whole

theorem takes_convertLeaf (sid : Int) (tag : String) (fields : List (String × Piece Others))
    (frame : Frame) (table : IdentTable Others) :
    Takes (leafUses sid fields) table (convertLeaf sid tag fields frame table).2
      (convertLeaf sid tag fields frame table).1.ids :=
  ((Takes.sid table sid).trans (takes_convertFields fields table)).congr (add_zero _)

mutual

theorem takes_cilStmtToJson (s : Stmt Others) (table : IdentTable Others) :
    Takes s.uses table (cilStmtToJson s table).2 (cilStmtToJson s table).1.ids := by
  match s with
  | .mk info skind =>
      have labelled := takes_convertAll info.labels table
      have inner := takes_convertSkind info.sid (frameOf info (convertAll info.labels table).1)
        skind (convertAll info.labels table).2
      have whole := labelled.trans (takes_wrapAnnots info.loc inner info.annots)
      exact whole.congr (zero_add _)

theorem takes_convertSkind (sid : Int) (frame : Frame) (skind : StmtKind Others)
    (table : IdentTable Others) :
    Takes (skind.uses sid) table (convertSkind sid frame skind table).2
      (convertSkind sid frame skind table).1.ids := by
  match skind with
  | .instr i => exact takes_convertInstr sid frame i table
  | .return e => exact takes_convertLeaf sid _ _ frame table
  | .goto target => exact takes_convertLeaf sid _ _ frame table
  | .break => exact .sid table sid
  | .continue => exact .sid table sid
  | .handler => exact .sid table sid
  | .ite cond thenBlock elseBlock =>
      have selse := takes_blockToStmtJson elseBlock table
      have sthen := takes_blockToStmtJson thenBlock (blockToStmtJson elseBlock table).2
      have whole := ((Takes.sid table sid).trans (selse.trans sthen)).trans (takes_convert cond _)
      apply whole.congr
      rw [add_zero, add_comm (StmtJson.ids _)]
      rfl
  | .loop body =>
      have inner := takes_blockToStmtJson body table
      exact (Takes.sid table sid).trans (inner.trans (.none _))
  | .block (.mk blocals bstmts) =>
      have inner := takes_stmtsToSequence bstmts (convertAll blocals table).2
      have whole := (takes_convertAll blocals table).trans ((Takes.sid _ sid).trans inner)
      exact whole.congr (zero_add _)
  | .switch e body =>
      have inner := takes_blockToStmtJson body table
      have whole := ((Takes.sid table sid).trans inner).trans (takes_convert e _)
      exact whole.congr (add_zero _)
  | .unspecifiedSequence seq =>
      exact (Takes.sid table sid).trans (takes_stmtsToSequence seq table)

theorem takes_blockToStmtJson (b : Block Others) (table : IdentTable Others) :
    Takes b.uses table (blockToStmtJson b table).2 (blockToStmtJson b table).1.ids := by
  match b with
  | .mk blocals bstmts =>
      have inner := takes_stmtsToSequence bstmts table
      rw [Block.uses, blockToStmtJson]
      cases none : blocals.isEmpty with
      | true => exact inner
      | false =>
          have whole := (inner.trans (takes_convertAll blocals _)).trans (.synth _)
          apply whole.congr
          rw [add_zero, add_comm]
          rfl

theorem takes_stmtsToSequence (stmts : List (Stmt Others)) (table : IdentTable Others) :
    Takes (usesOf stmts) table (stmtsToSequence stmts table).2
      (stmtsToSequence stmts table).1.ids := by
  match stmts with
  | [] => exact .none table
  | [s] => exact takes_cilStmtToJson s table
  | s :: next :: rest =>
      have first := takes_cilStmtToJson s table
      have others := takes_stmtsToSequence (next :: rest) (cilStmtToJson s table).2
      have whole := (first.trans others).trans (.synth _)
      apply whole.congr
      rw [add_comm]
      rfl

end

end Statements

section Project

def Fundec.uses (fundec : Fundec Others) : Uses :=
  .names fundec.contract.enums ++ fundec.body.uses ++ .names fundec.vars.enums ++
    .names fundec.params.enums ++ .names fundec.returnType.enums

theorem takes_internalFunToJson (fundec : Fundec Others) (table : IdentTable Others) :
    Takes fundec.uses table (internalFunToJson fundec table).2
      ↑(internalFunToJson fundec table).1.siIds := by
  have contract := takes_convert fundec.contract table
  have body := takes_blockToStmtJson fundec.body (fundec.contract.convert table).2
  have whole := (((contract.trans body).trans (takes_convert fundec.vars _)).trans
    (takes_convert fundec.params _)).trans (takes_convert fundec.returnType _)
  apply whole.congr
  simp only [zero_add, add_zero]
  rfl

/-- Only the bodies of the functions take ids. -/
def Global.idUses : Global Others → Uses
  | .fun fundec => fundec.uses
  | _ => {}

/-- These are the ids of the statements of the dump. -/
def Dump.siIds (dump : Dump Others) : List Int :=
  dump.progDefs.flatMap fun progDef => progDef.2.siIds

/-- The dump has the ids that are taken, and it has made up as many as it counts. -/
structure IdsTaken (spans : List Span) (synths : Nat) (dump : Dump Others) : Prop where
  counter : dump.table.synthStmtCounter = synths
  ids : (dump.siIds : Multiset Int) = Uses.ids { spans := spans, synths := synths } 0

variable {spans : List Span} {synths : Nat} {dump : Dump Others}

theorem IdsTaken.congr {next : Dump Others} (taken : IdsTaken spans synths dump)
    (counter : next.table.synthStmtCounter = dump.table.synthStmtCounter)
    (siIds : next.siIds = dump.siIds) : IdsTaken spans synths next where
  counter := counter.trans taken.counter
  ids := by rw [siIds, taken.ids]

theorem synthStmtCounter_convertAll (pieces : List (Piece Others)) (table : IdentTable Others) :
    (convertAll pieces table).2.synthStmtCounter = table.synthStmtCounter :=
  (takes_convertAll pieces table).synths

theorem IdsTaken.dumpTypesAndBodies (taken : IdsTaken spans synths dump) (g : Global Others) :
    IdsTaken (spans ++ g.idUses.spans) (synths + g.idUses.synths) (dumpTypesAndBodies dump g) := by
  have composite (ci : Compinfo Others) : IdsTaken spans synths (dumpComposite dump ci) := by
    rw [dumpComposite]
    split
    · exact taken
    · exact taken.congr (synthStmtCounter_convertAll _ _) rfl
  have enum (ei : Enuminfo) : IdsTaken spans synths (dumpEnum dump ei) := by
    rw [dumpEnum]
    split
    · exact taken
    · exact taken.congr rfl rfl
  cases g with
  | compTag ci | compTagDecl ci =>
      simp only [Global.idUses, List.append_nil, add_zero]
      exact composite ci
  | enumTag ei | enumTagDecl ei =>
      simp only [Global.idUses, List.append_nil, add_zero]
      exact enum ei
  | var vid var =>
      simp only [Global.idUses, List.append_nil, add_zero]
      exact taken.congr rfl rfl
  | funDecl _ _ _ | varDecl _ _ | unread =>
      simp only [Global.idUses, List.append_nil, add_zero]
      exact taken
  | «fun» fundec =>
      have body := takes_internalFunToJson fundec dump.table
      constructor
      · exact body.synths.trans (congrArg (· + _) taken.counter)
      · have whole : (Export.dumpTypesAndBodies dump (.fun fundec)).siIds =
            (internalFunToJson fundec dump.table).1.siIds ++ dump.siIds := rfl
        have order := Uses.ids_append { spans := spans, synths := synths } fundec.uses 0
        rw [whole, ← Multiset.coe_add, body.ids, taken.ids, taken.counter, add_comm]
        rw [zero_add] at order
        exact order.symm

theorem IdsTaken.dumpDeclarations (taken : IdsTaken spans synths dump) (g : Global Others) :
    IdsTaken spans synths (dumpDeclarations dump g) := by
  cases g with
  | funDecl vid isFun decl =>
      rw [Export.dumpDeclarations]
      split
      · exact taken.congr rfl rfl
      · exact taken
  | varDecl vid decl =>
      rw [Export.dumpDeclarations]
      split
      · exact taken
      · exact taken.congr rfl rfl
  | _ => exact taken

/-- These are the blocks of ids that the statements of a file take. -/
def sourceSpans (globals : List (Global Others)) : List Span :=
  globals.flatMap fun g => g.idUses.spans

/-- This is the number of ids that a dump makes up. -/
def synthesized (globals : List (Global Others)) : Nat :=
  (globals.map fun g => g.idUses.synths).sum

theorem IdsTaken.foldl_types (taken : IdsTaken spans synths dump)
    (globals : List (Global Others)) :
    IdsTaken (spans ++ sourceSpans globals) (synths + synthesized globals)
      (globals.foldl Export.dumpTypesAndBodies dump) := by
  induction globals generalizing spans synths dump with
  | nil => simpa [sourceSpans, synthesized] using taken
  | cons g rest ih =>
      have step := ih (taken.dumpTypesAndBodies g)
      rw [List.append_assoc, add_assoc] at step
      exact step

theorem IdsTaken.foldl_declarations (taken : IdsTaken spans synths dump)
    (globals : List (Global Others)) :
    IdsTaken spans synths (globals.foldl Export.dumpDeclarations dump) := by
  induction globals generalizing dump with
  | nil => exact taken
  | cons g rest ih => exact ih (taken.dumpDeclarations g)

/-- These blocks hold the ids of a dump. -/
def idSpans (file : File Others) : List Span :=
  sourceSpans file.globals ++ [⟨synthBase, synthesized file.globals⟩]

/-- The statements of a dump have the ids of the blocks, in some order. -/
theorem siIds_dumpProject (file : File Others) :
    (dumpProject file).siIds.Perm ((idSpans file).flatMap Span.numbers) := by
  have start : IdsTaken [] 0 ({ table := createIdentTable file.others } : Dump Others) :=
    ⟨rfl, by simp [Dump.siIds, Uses.ids, Span.numbers]⟩
  have taken := (start.foldl_types file.globals).foldl_declarations file.globals
  have turned : (dumpProject file).siIds.Perm (file.globals.foldl dumpDeclarations
      (file.globals.foldl dumpTypesAndBodies { table := createIdentTable file.others })).siIds :=
    (List.reverse_perm _).flatMap_right _
  apply turned.trans
  apply Multiset.coe_eq_coe.mp
  rw [taken.ids, Uses.ids, List.nil_append, zero_add, idSpans, List.flatMap_append,
    ← Multiset.coe_add]
  simp

/-- No id is given twice where the blocks do not meet. -/
theorem siIds_nodup_iff (file : File Others) :
    (dumpProject file).siIds.Nodup ↔ (idSpans file).Pairwise Span.Apart := by
  rw [(siIds_dumpProject file).nodup_iff, Span.nodup_flatMap_numbers_iff]

end Project

end FramaCMcp.Export
