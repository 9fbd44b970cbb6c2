/-
This file shows that a written receipt reproduces its own shape and its own digest, that the recheck
accepts what the writer stamped and that it rejects every edit under the old stamp.
-/

import FramaCMcp.Construction.Conclusion
import FramaCMcp.Foundation.JsonValue
import FramaCMcp.Foundation.PrettyJson

namespace FramaCMcp.WrittenReceipt

open Receipt Conclusion Profile

def writtenReceipt [Sha256] (body : ProofReceiptBody) (nonce : String) : Json :=
  proofReceiptWithHash (proofReceiptBody body nonce)

/-- The digest of a body without a digest is reproduced. -/
theorem digestError_proofReceiptWithHash [Sha256] (fields : List (String × Json))
    (absent : ∀ field ∈ fields, field.1 ≠ postBodyKey) :
    digestError (proofReceiptWithHash (.obj fields)) = none := by
  have written : proofReceiptWithHash (.obj fields) =
      .obj (fields ++ [(postBodyKey, .str (Sha256.hexJson (.obj fields)))]) := by
    rw [proofReceiptWithHash, Json.insert, Json.insertField_of_absent _ _ _ absent]
  have stamped : ((proofReceiptWithHash (.obj fields)).get "sha256").bind Json.asStr =
      some (Sha256.hexJson (.obj fields)) := by
    rw [proofReceiptWithHash]
    exact congrArg (Option.bind · Json.asStr) (Json.get_insert_self fields postBodyKey _)
  have body : receiptBody (proofReceiptWithHash (.obj fields)) = some (.obj fields) := by
    have kept : fields.filter (fun field => field.1 != "sha256") = fields := by
      apply List.filter_eq_self.mpr
      intro field member
      simpa [postBodyKey] using absent field member
    rw [written]
    simp [receiptBody, Json.asObject, List.filter_append, kept, postBodyKey]
  rw [digestError, stamped, body]
  simp

theorem digestError_writtenReceipt [Sha256] (body : ProofReceiptBody) (nonce : String) :
    digestError (writtenReceipt body nonce) = none := by
  apply digestError_proofReceiptWithHash
  simp [postBodyKey]

/-- The shape is a property of the keys alone. -/
theorem schemaOf_writtenReceipt [Sha256] (body : ProofReceiptBody) (nonce : String) :
    schemaOf (writtenReceipt body nonce) = receiptShape := by
  rw [receiptShape, schemaOf, schemaOf]
  rfl

theorem shapeError_writtenReceipt [UnicodeTables] [Sha256] (body : ProofReceiptBody)
    (nonce : String) : shapeError (writtenReceipt body nonce) = none := by
  have schema : ((writtenReceipt body nonce).get "schema").bind Json.asStr = some receiptSchema :=
    rfl
  simp [shapeError, schema, schemaOf_writtenReceipt]

/-- Only the questions about the run remain for a written receipt. -/
theorem evidence_writtenReceipt [UnicodeTables] [Sha256] (body : ProofReceiptBody) (nonce : String)
    (goalTotal : UInt32) (function : String) :
    proofReceiptEvidenceError (writtenReceipt body nonce) goalTotal function =
      (filesError (writtenReceipt body nonce) <|>
        goalsError (writtenReceipt body nonce) goalTotal <|>
        toolError (writtenReceipt body nonce) <|> verdictError (writtenReceipt body nonce) <|>
        filterError (writtenReceipt body nonce) <|> scopeError (writtenReceipt body nonce) <|>
        functionError (writtenReceipt body nonce) function) := by
  rw [proofReceiptEvidenceError, shapeError_writtenReceipt, digestError_writtenReceipt]
  rfl

/-- This check proved the one goal of a function. -/
def provedBody (function : String) : ProofReceiptBody where
  tool := "check"
  sourceFiles := [.obj [("path", .str "f.c"),
    ("sha256", .str "b70965190393f5f18582cabbb1fbebbe09daabfc4fc05186ef8aecc67299a771")]]
  projectLoad := projectLoadIdentity { rte := true }
  astDigest := .str "b70965190393f5f18582cabbb1fbebbe09daabfc4fc05186ef8aecc67299a771"
  astDigestUnavailableReason := .null
  contracts := .obj []
  environment := .obj [("frama_c", .str "33.0")]
  wpConfig := .obj [("functions", textArray [function])]
  evaConfig := .obj [("ran", .bool true)]
  goals := [.obj [("stable_goal_id", .str "en_0badcafe"), ("status", .str "valid"),
    ("from_cache", .bool false), ("vacuously_proved", .bool false), ("fct", .str function)]]
  goalsStatusSource := "check_wp_goals"
  reported := .obj [("verdict", .str "proved")]

/-- The receipt of this check is evidence about its function. -/
theorem evidence_provedBody [UnicodeTables] [Sha256] (function : String) :
    proofReceiptEvidenceError (writtenReceipt (provedBody function) "") 1 function = none := by
  rw [evidence_writtenReceipt]
  have named : functionError (writtenReceipt (provedBody function) "") function = none := by
    have names : provedFunctions (writtenReceipt (provedBody function) "") =
        some [.str function] := rfl
    simp [functionError, names, Json.isText]
  rw [named]
  rfl

end FramaCMcp.WrittenReceipt

namespace FramaCMcp.ReceiptOrder

open Status Goals Verdicts WpClass Receipt

/-- This is the digest of the receipt over one list of recorded goals. -/
def receiptHash [Sha256] (request : ProofReceiptBody) (nonce : String) (goals : List Json) :
    Option Json :=
  (proofReceiptWithHash (proofReceiptBody { request with goals := goals } nonce)).get postBodyKey

/-- Each order of the goals gives the same record and the same digest. -/
def OrderIndependent [UnicodeTables] [Sha256] (stableScope : Option String)
    (properties : HashMap Json) (goals : List Json) : Prop :=
  ∀ other : List Json, other.Perm goals →
    proofReceiptGoals other stableScope properties =
        proofReceiptGoals goals stableScope properties ∧
      ∀ (request : ProofReceiptBody) (nonce : String),
        receiptHash request nonce (proofReceiptGoals other stableScope properties) =
          receiptHash request nonce (proofReceiptGoals goals stableScope properties)

/-- The sort cannot tell these two goals apart. -/
def sameSortKey (left right : Json) : Prop :=
  (left.index "stable_goal_id").asStr = (right.index "stable_goal_id").asStr ∧
    ownStatus left = ownStatus right

/-- The receipt records the same about these two goals besides the verdict. -/
structure RecordedAlike (left right : Json) : Prop where
  id : left.index "stable_goal_id" = right.index "stable_goal_id"
  fromCache : goalIsFromCache left = goalIsFromCache right
  vacuous : goalIsVacuouslyProved left = goalIsVacuouslyProved right
  owner : goalOwnerName left = goalOwnerName right

theorem receiptGoalKey_row (goal : Json) :
    receiptGoalKey (receiptGoalRow goal) =
      toLex (orderText (goal.index "stable_goal_id").asStr, orderText (ownStatus goal)) := by
  have status : (Json.ofText? (ownStatus goal)).asStr = ownStatus goal := Json.asStr_ofText? _
  rw [← status]
  rfl

theorem receiptGoalKey_eq_iff (left right : Json) :
    receiptGoalKey (receiptGoalRow left) = receiptGoalKey (receiptGoalRow right) ↔
      sameSortKey left right := by
  rw [receiptGoalKey_row, receiptGoalKey_row, toLex_inj, Prod.mk.injEq,
    orderText_injective.eq_iff, orderText_injective.eq_iff, sameSortKey]

/-- Two rows are equal exactly where each recorded field is equal. -/
theorem receiptGoalRow_eq_iff (left right : Json) (status : ownStatus left = ownStatus right) :
    receiptGoalRow left = receiptGoalRow right ↔ RecordedAlike left right := by
  constructor
  · intro same
    simp only [receiptGoalRow, Json.obj.injEq, List.cons.injEq, Prod.mk.injEq, true_and,
      and_true, Json.bool.injEq] at same
    obtain ⟨id, -, fromCache, vacuous, owner⟩ := same
    exact ⟨id, Json.ofFlag?_injective fromCache, vacuous, Json.ofText?_injective owner⟩
  · rintro ⟨id, fromCache, vacuous, owner⟩
    simp only [receiptGoalRow, id, fromCache, vacuous, owner, status]

/-- The receipt is independent of the order exactly where the sort key separates the records. -/
theorem orderIndependent_iff [UnicodeTables] [Sha256] (stableScope : Option String)
    (properties : HashMap Json) (goals : List Json) :
    OrderIndependent stableScope properties goals ↔
      ∀ left ∈ goals, ∀ right ∈ goals,
        sameSortKey (finishReceiptGoal stableScope properties left)
          (finishReceiptGoal stableScope properties right) →
        RecordedAlike (finishReceiptGoal stableScope properties left)
          (finishReceiptGoal stableScope properties right) := by
  have canonical := StableSort.sortByKey_map_canonical_iff receiptGoalKey
    (fun goal => receiptGoalRow (finishReceiptGoal stableScope properties goal)) goals
  simp only [receiptGoalKey_eq_iff] at canonical
  constructor
  · intro independent left leftMember right rightMember tied
    have same := canonical.mp (fun other permuted => (independent other permuted).1)
      left leftMember right rightMember tied
    exact (receiptGoalRow_eq_iff _ _ tied.2).mp same
  · intro separates other permuted
    have same := canonical.mpr (fun left leftMember right rightMember tied =>
      (receiptGoalRow_eq_iff _ _ tied.2).mpr (separates left leftMember right rightMember tied))
      other permuted
    refine ⟨same, fun request nonce => ?_⟩
    rw [proofReceiptGoals, same, proofReceiptGoals]

/-- WP split one labelled assertion into parts and replayed the verdict of one part. -/
def splitGoal (replayed : Bool) : Json :=
  .obj [("wpo", .str (if replayed then "typed_f_assert_part1" else "typed_f_assert_part2")),
    ("fct", .str "f"),
    ("name", .str "Assertion 'an_0badcafe' (file a.c, line 3)"), ("status", .str "VALID"),
    ("from_cache", .bool replayed)]

/-- This is the row of one part. -/
def splitRow (replayed : Bool) : Json :=
  .obj [("stable_goal_id", .str "an_0badcafe"), ("status", .str "valid"),
    ("from_cache", .bool replayed), ("vacuously_proved", .bool false), ("fct", .str "f")]

theorem receiptGoalRow_splitGoal (replayed : Bool) :
    receiptGoalRow (@finishReceiptGoal .ascii (.ofTable [] rfl) none ∅ (splitGoal replayed)) =
      splitRow replayed := by
  cases replayed <;> rfl

/-- Two orders of the parts give two records. -/
theorem not_orderIndependent :
    ¬ ∀ [UnicodeTables] [Sha256] (stableScope : Option String) (properties : HashMap Json)
      (goals : List Json), OrderIndependent stableScope properties goals := by
  intro independent
  have same := (StableSort.sortByKey_map_canonical_iff receiptGoalKey
    (fun goal => receiptGoalRow (@finishReceiptGoal .ascii (.ofTable [] rfl) none ∅ goal))
    [splitGoal true, splitGoal false]).mp
    (fun other permuted => (@independent .ascii (.ofTable [] rfl) none ∅ _ other permuted).1)
    (splitGoal true) (by simp) (splitGoal false) (by simp)
    (by rw [receiptGoalRow_splitGoal, receiptGoalRow_splitGoal]; rfl)
  rw [receiptGoalRow_splitGoal, receiptGoalRow_splitGoal] at same
  simp [splitRow] at same

end FramaCMcp.ReceiptOrder

namespace FramaCMcp.WrittenReceipt

open Receipt Conclusion

/-- This is the text that the digest is taken of. -/
def receiptText (receipt : Json) : Option String := (receiptBody receipt).map Json.render

/-- An edit keeps the stamp and changes some other field. -/
structure Edited (receipt changed : Json) : Prop where
  sameStamp : changed.get postBodyKey = receipt.get postBodyKey
  otherFields : receiptBody changed ≠ receiptBody receipt

/-- No two different texts of these receipts have one digest. -/
def NoCollision [Sha256] (receipt changed : Json) : Prop :=
  (receiptText changed).map Sha256.hexText = (receiptText receipt).map Sha256.hexText →
    receiptText changed = receiptText receipt

/-- The stamp of a coherent receipt is the digest of its text. -/
theorem stamp_of_digestError [Sha256] {receipt : Json} (coherent : digestError receipt = none) :
    (receipt.get postBodyKey).bind Json.asStr = (receiptText receipt).map Sha256.hexText := by
  rw [digestError] at coherent
  rw [receiptText, Option.map_map]
  cases stamp : (receipt.get "sha256").bind Json.asStr with
  | none => simp [stamp] at coherent
  | some stamped =>
      cases body : receiptBody receipt with
      | none => simp [stamp, body] at coherent
      | some fields =>
          have equal : Sha256.hexJson fields = stamped := by
            by_contra different
            simp [stamp, body, different] at coherent
          exact stamp.trans (congrArg some equal.symm)

theorem isSpelled_receiptBody {receipt body : Json} (spelled : receipt.isSpelled = true)
    (kept : receiptBody receipt = some body) : body.isSpelled = true := by
  cases receipt with
  | obj fields =>
      obtain rfl := Option.some.inj kept
      rw [Json.isSpelled, Json.fieldsSpelled_iff] at spelled ⊢
      intro field member
      exact spelled field (List.mem_of_mem_filter member)
  | _ => cases kept

/-- The text says which fields the receipt has. -/
theorem receiptBody_of_text {receipt changed : JsonValue}
    (same : receiptText changed.json = receiptText receipt.json) :
    receiptBody changed.json = receiptBody receipt.json := by
  rw [receiptText, receiptText] at same
  cases first : receiptBody changed.json with
  | none =>
      rw [first, Option.map_none] at same
      exact (Option.map_eq_none_iff.mp same.symm).symm
  | some body =>
      rw [first, Option.map_some] at same
      obtain ⟨other, second, texts⟩ := Option.map_eq_some_iff.mp same.symm
      rw [second, Json.render_inj (isSpelled_receiptBody receipt.spelled second)
        (isSpelled_receiptBody changed.spelled first) texts]

/-- An edit under the old stamp is rejected. -/
theorem digestError_of_edited [Sha256] {receipt changed : JsonValue}
    (coherent : digestError receipt.json = none) (edited : Edited receipt.json changed.json)
    (apart : NoCollision receipt.json changed.json) : digestError changed.json ≠ none := by
  intro accepted
  have stamps := stamp_of_digestError accepted
  rw [edited.sameStamp, stamp_of_digestError coherent] at stamps
  exact edited.otherFields (receiptBody_of_text (apart stamps.symm))

section Recheck

variable [UnicodeTables] [Sha256]

/-- These are the questions that need nothing but the receipt's own fields. -/
def coherenceError (receipt : Json) : Option String := shapeError receipt <|> digestError receipt

theorem coherenceError_eq_none_iff {receipt : Json} :
    coherenceError receipt = none ↔ shapeError receipt = none ∧ digestError receipt = none := by
  rw [coherenceError]
  cases shapeError receipt <;> simp

theorem coherenceError_writtenReceipt (body : ProofReceiptBody) (nonce : String) :
    coherenceError (writtenReceipt body nonce) = none := by
  rw [coherenceError, shapeError_writtenReceipt, digestError_writtenReceipt]
  rfl

/-- The recheck starts with these questions. -/
theorem evidence_of_coherenceError {receipt : Json} (rejected : coherenceError receipt ≠ none)
    (goalTotal : UInt32) (function : String) :
    proofReceiptEvidenceError receipt goalTotal function = coherenceError receipt := by
  obtain ⟨message, found⟩ := Option.ne_none_iff_exists'.mp rejected
  rw [coherenceError] at found ⊢
  rw [proofReceiptEvidenceError]
  cases shape : shapeError receipt with
  | some text => rfl
  | none =>
      rw [shape] at found
      rw [show digestError receipt = some message from found]
      rfl

theorem evidence_of_edited {receipt changed : JsonValue}
    (coherent : digestError receipt.json = none) (edited : Edited receipt.json changed.json)
    (apart : NoCollision receipt.json changed.json) (goalTotal : UInt32) (function : String) :
    proofReceiptEvidenceError changed.json goalTotal function ≠ none := by
  have rejected : coherenceError changed.json ≠ none := by
    intro accepted
    exact digestError_of_edited coherent edited apart (coherenceError_eq_none_iff.mp accepted).2
  rwa [evidence_of_coherenceError rejected]

/-- The writer's receipt passes its own recheck, before and after a file keeps it, and every edit
of a field under the old stamp is rejected. -/
theorem proofReceipt_selfCheck (body : ProofReceiptBody) (nonce : String) (receipt : JsonValue)
    (written : receipt.json = writtenReceipt body nonce) (toStringPretty : Json → String)
    (fromStr : String → Option Json)
    (readsBack : fromStr (toStringPretty receipt.json) = some receipt.json) :
    coherenceError receipt.json = none ∧
      (fromStr (toStringPretty receipt.json)).map coherenceError = some none ∧
      ∀ changed : JsonValue, Edited receipt.json changed.json →
        NoCollision receipt.json changed.json →
        ∀ (goalTotal : UInt32) (function : String),
          proofReceiptEvidenceError changed.json goalTotal function ≠ none := by
  have coherent : coherenceError receipt.json = none := by
    rw [written]
    exact coherenceError_writtenReceipt body nonce
  refine ⟨coherent, ?_, ?_⟩
  · rw [readsBack, Option.map_some, coherent]
  · intro changed edited apart
    exact evidence_of_edited (coherenceError_eq_none_iff.mp coherent).2 edited apart

end Recheck

def filesText : String := (Json.arr (provedBody "f").sourceFiles).render

def filesHex : String := "fde89e21bd5e5b90c36d37885b1785eb1d16c1d5e6442c32894ee072f0228a8f"

def bodyHex : String := "2b57def36b6dd82678d24ff8230b0985a3262e800cedd6d33b7d54cd3fe4bf37"

def editedHex : String := "8bae27aa82e66076db79655cb56a9ca5e17df734671007ee1405da135b997b32"

/-- This is the body of one proof with the digest of its files in it. -/
def provedFields : Json :=
  @proofReceiptBody (.ofTable [(filesText, filesHex)] rfl) (provedBody "f") ""

/-- This edit turns the valid goal into an unknown one. -/
def unprovedFields : Json :=
  provedFields.insert "goals" (.arr [.obj [("status", .str "unknown")]])

/-- These are the digests of the files, of the body and of the edited body. -/
abbrev bodyDigest : Sha256 := .ofTable [(filesText, filesHex), (provedFields.render, bodyHex),
  (unprovedFields.render, editedHex)] rfl

theorem provedFields_ne : provedFields ≠ unprovedFields := by
  intro same
  have texts := congrArg (fun fields => ((fields.index "goals").asArray.bind List.head?).bind
    fun goal => (goal.index "status").asStr) same
  exact absurd texts (by decide)

theorem hexText_bodyDigest : @Sha256.hexText bodyDigest filesText = filesHex ∧
    @Sha256.hexText bodyDigest provedFields.render = bodyHex ∧
    @Sha256.hexText bodyDigest unprovedFields.render = editedHex := by
  have different : provedFields.render ≠ unprovedFields.render := by
    intro texts
    exact provedFields_ne (Json.render_inj (by decide) (by decide) texts)
  have body : filesText ≠ provedFields.render :=
    Json.render_ne _ _ fun same => absurd (List.cons.inj same).1 (by decide)
  have edited : filesText ≠ unprovedFields.render :=
    Json.render_ne _ _ fun same => absurd (List.cons.inj same).1 (by decide)
  refine ⟨?_, ?_, ?_⟩ <;> apply (Sha256.hexText_ofTable _ _ _).trans
  · simp
  · simp [body]
  · simp [edited, different]

/-- This receipt carries the digest of its body. -/
def provedReceipt : JsonValue where
  json := provedFields.insert postBodyKey (.str bodyHex)
  spelled := by decide
  distinct := by decide

theorem provedReceipt_written :
    provedReceipt.json = @writtenReceipt bodyDigest (provedBody "f") "" := by
  have files : @Sha256.hexText (.ofTable [(filesText, filesHex)] rfl) filesText = filesHex := by
    apply (Sha256.hexText_ofTable _ _ _).trans
    simp
  have fields : @proofReceiptBody bodyDigest (provedBody "f") "" = provedFields := by
    unfold provedFields proofReceiptBody Sha256.hexJson
    rw [← filesText, files, hexText_bodyDigest.1]
  unfold writtenReceipt proofReceiptWithHash Sha256.hexJson
  rw [fields, hexText_bodyDigest.2.1]
  rfl

def unprovedReceipt : JsonValue where
  json := provedReceipt.json.insert "goals" (.arr [.obj [("status", .str "unknown")]])
  spelled := by decide
  distinct := by decide

theorem edited_unprovedReceipt : Edited provedReceipt.json unprovedReceipt.json where
  sameStamp := rfl
  otherFields := fun same => provedFields_ne (Option.some.inj same.symm)

theorem noCollision_unprovedReceipt :
    @NoCollision bodyDigest provedReceipt.json unprovedReceipt.json := by
  intro same
  have digests : @Sha256.hexText bodyDigest unprovedFields.render =
      @Sha256.hexText bodyDigest provedFields.render := Option.some.inj same
  rw [hexText_bodyDigest.2.1, hexText_bodyDigest.2.2] at digests
  exact absurd digests (by decide)

def toStringPretty (value : Json) : String := String.ofList (Json.prettyLetters 0 value)

/-- This reads back the text of the receipt. -/
def readFile (text : String) : Option Json :=
  if text = toStringPretty provedReceipt.json then some provedReceipt.json else none

/-- The proved goal of a kept receipt cannot be edited away. -/
theorem proofReceipt_selfCheck_example :
    @coherenceError .ascii bodyDigest provedReceipt.json = none ∧
      (readFile (toStringPretty provedReceipt.json)).map (@coherenceError .ascii bodyDigest) =
        some none ∧
      @proofReceiptEvidenceError .ascii bodyDigest unprovedReceipt.json 1 "f" ≠ none := by
  obtain ⟨kept, back, edits⟩ := @proofReceipt_selfCheck .ascii bodyDigest (provedBody "f") ""
    provedReceipt provedReceipt_written toStringPretty readFile (if_pos rfl)
  exact ⟨kept, back, edits unprovedReceipt edited_unprovedReceipt noCollision_unprovedReceipt 1 "f"⟩

end FramaCMcp.WrittenReceipt
