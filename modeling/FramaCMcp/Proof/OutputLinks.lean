/-
This file shows which links let an output path leave the working directory.
-/

import FramaCMcp.Construction.SandboxRecords

namespace FramaCMcp.OutputPath

open Path

section Normal

/-- After the root a normalized path holds names only. -/
def Plain (path : List Component) : Prop :=
  ∀ first rest, path = first :: rest → ∀ component ∈ rest, ∃ name, component = .normal name

theorem pushComponent_plain {path next : List Component} {component : Component}
    (plain : Plain path) (pushed : pushComponent path component = some next) : Plain next := by
  cases component with
  | curDir => cases pushed; exact plain
  | rootDir =>
      cases pushed
      rintro first rest same component member
      cases same
      cases member
  | parentDir =>
      have shorter : next = path.dropLast := by
        rw [pushComponent] at pushed
        split at pushed <;> cases pushed
        rfl
      subst shorter
      intro first rest same component member
      cases path with
      | nil => cases same
      | cons head tail =>
          cases tail with
          | nil => cases same
          | cons second tail =>
              rw [List.dropLast_cons_cons] at same
              cases same
              exact plain first (second :: tail) rfl component (List.mem_of_mem_dropLast member)
  | normal name =>
      cases pushed
      intro first rest same component member
      cases path with
      | nil =>
          cases same
          cases member
      | cons head tail =>
          cases same
          rcases List.mem_append.mp member with inside | last
          · exact plain first tail rfl component inside
          · exact ⟨name, List.mem_singleton.mp last⟩

theorem normalize_plain {joined normalized : List Component}
    (normal : normalize joined = some normalized) : Plain normalized := by
  suffices run : ∀ (joined start : List Component), Plain start →
      ∀ normalized, joined.foldlM pushComponent start = some normalized → Plain normalized from
    run joined [] (fun _ _ same => by cases same) normalized normal
  intro joined
  induction joined with
  | nil =>
      intro start plain normalized same
      cases same
      exact plain
  | cons component rest ih =>
      intro start plain normalized same
      rw [List.foldlM_cons] at same
      obtain ⟨next, pushed, later⟩ := Option.bind_eq_some_iff.mp same
      exact ih next (pushComponent_plain plain pushed) normalized later

end Normal

variable {host : FileHost} {root : List Component} {path : String}

/-- Each file that is written through the answer is in the canonical root. -/
def StaysInside (host : FileHost) (root : List Component) (path : String) : Prop :=
  ∀ real, host.canonicalize root = .ok real →
    ∀ answer, resolveOutputPathIn host root path = .ok answer →
      ∀ place, host.openedForWriting answer = some place → real <+: place

/-- The directory of the path is in the root, and its last name is a link there to a free name
outside the root. -/
def LeavesByLink (host : FileHost) (root : List Component) (path : String) : Prop :=
  ∃ real parent name place left target free,
    host.canonicalize root = .ok real ∧
    normalize (joinedPath host root path) = some (parent ++ [.normal name]) ∧
    ofPlace real <+: parent ++ [.normal name] ∧
    host.resolve parent = .found place left ∧
    real <+: place ∧
    host.node (place ++ [name]) = some (.link target) ∧
    host.throughLink left place target = .missing free ∧
    ¬ real <+: free

theorem canonicalize_eq_ok_iff {names : List Component} {place : Place} :
    host.canonicalize names = .ok place ↔ ∃ left, host.resolve names = .found place left := by
  rw [FileHost.canonicalize]
  cases host.resolve names <;> simp

theorem realRoot_of_ok {real : Place} (canonical : host.canonicalize root = .ok real) :
    realRoot host root = ofPlace real := by
  rw [realRoot, canonical]

/-- An accepted path has an ancestor that leads into the root, and the next name is free. -/
theorem resolveOutputPathIn_ok {real : Place} {answer : List Component}
    (canonical : host.canonicalize root = .ok real)
    (accepted : resolveOutputPathIn host root path = .ok answer) :
    normalize (joinedPath host root path) = some answer ∧ ofPlace real <+: answer ∧
      ∃ existing place left, (ancestors answer).find? host.pathExists = some existing ∧
        host.resolve existing = .found place left ∧ real <+: place := by
  rw [resolveOutputPathIn, realRoot_of_ok canonical] at accepted
  split at accepted
  case h_1 => cases accepted
  case h_2 normalized normal =>
    split_ifs at accepted with outside
    split at accepted
    case h_1 => cases accepted
    case h_2 existing found =>
      split at accepted
      case h_1 => cases accepted
      case h_2 place resolved =>
        split_ifs at accepted with leaves
        cases accepted
        obtain ⟨left, resolves⟩ := canonicalize_eq_ok_iff.mp resolved
        rw [Bool.not_eq_false, List.isPrefixOf_iff_prefix] at outside leaves
        exact ⟨normal, outside, existing, place, left, found, resolves,
          ofPlace_prefix_iff.mp leaves⟩

/-- What is written outside the root is written through a link to a free name. -/
theorem leavesByLink_of_written {real place : Place} {answer : List Component}
    (canonical : host.canonicalize root = .ok real)
    (accepted : resolveOutputPathIn host root path = .ok answer)
    (written : host.openedForWriting answer = some place) (outside : ¬ real <+: place) :
    LeavesByLink host root path := by
  obtain ⟨normal, below, existing, here, left, found, resolves, inside⟩ :=
    resolveOutputPathIn_ok canonical accepted
  rw [FileHost.openedForWriting] at written
  obtain ⟨-, rfl | ⟨next, rest, rfl, absent⟩⟩ := find_ancestors found
  case inl =>
    rw [resolves] at written
    dsimp only at written
    split_ifs at written
    cases written
    exact absurd inside outside
  case inr =>
    have starts : existing ≠ [] := by
      rintro rfl
      cases resolves
    have onlyLast : rest = [] := by
      by_contra more
      have longer : existing ++ next :: rest = (existing ++ [next]) ++ rest := by simp
      rw [longer, host.resolve_append (by simp) more] at written
      rw [FileHost.pathExists] at absent
      cases ends : host.resolve (existing ++ [next]) with
      | found _ _ => rw [ends] at absent; cases absent
      | missing _ => rw [ends] at written; cases written
      | blocked => rw [ends] at written; cases written
    subst onlyLast
    obtain ⟨name, rfl⟩ : ∃ name, next = .normal name := by
      obtain ⟨first, tail, rfl⟩ := List.exists_cons_of_ne_nil starts
      exact normalize_plain normal first _ rfl next
        (List.mem_append_right tail (List.mem_singleton_self next))
    have last : host.resolve (existing ++ [.normal name]) =
        host.walk left here [.normal name] := by
      rw [host.resolve_append starts (List.cons_ne_nil _ _), resolves, Walk.andThen]
    rw [FileHost.pathExists, last, host.walk_name] at absent
    rw [last, host.walk_name] at written
    split_ifs at absent written with directory
    cases entry : host.node (here ++ [name]) with
    | none =>
        rw [entry] at written
        cases written
        exact absurd (inside.trans (List.prefix_append here [name])) outside
    | some node =>
        rw [entry] at written absent
        cases node with
        | dir => cases absent
        | file => cases absent
        | link target =>
            dsimp only at written absent
            cases through : host.throughLink left here target with
            | found _ _ => rw [through] at absent; cases absent
            | blocked => rw [through] at written; cases written
            | missing free =>
                rw [through] at written
                cases written
                exact ⟨real, existing, name, here, left, target, place, canonical, normal, below,
                  resolves, inside, entry, through, outside⟩

/-- Such a link is accepted. -/
theorem LeavesByLink.written (leaves : LeavesByLink host root path) :
    ∃ real answer place, host.canonicalize root = .ok real ∧
      resolveOutputPathIn host root path = .ok answer ∧
      host.openedForWriting answer = some place ∧ ¬ real <+: place := by
  obtain ⟨real, parent, name, place, left, target, free, canonical, normal, below, resolves, inside,
    link, missing, outside⟩ := leaves
  have starts : parent ≠ [] := by
    rintro rfl
    cases resolves
  have directory : host.node place = some .dir :=
    host.insideDir place name (by rw [link]; rfl)
  have last : host.resolve (parent ++ [.normal name]) = .missing free := by
    rw [host.resolve_append starts (List.cons_ne_nil _ _), resolves, Walk.andThen, host.walk_name,
      if_pos directory, link]
    exact missing
  have absent : host.pathExists (parent ++ [.normal name]) = false := by
    rw [FileHost.pathExists, last]
  have present : host.pathExists parent = true := host.pathExists_iff.mpr ⟨place, left, resolves⟩
  have found : (ancestors (parent ++ [.normal name])).find? host.pathExists = some parent := by
    rw [ancestors_append, List.find?_cons, absent]
    exact find_ancestors_self present
  have resolved : host.canonicalize parent = .ok place := canonicalize_eq_ok_iff.mpr ⟨left, resolves⟩
  refine ⟨real, parent ++ [.normal name], free, canonical, ?_, ?_, outside⟩
  · rw [resolveOutputPathIn, normal, realRoot_of_ok canonical]
    dsimp only
    rw [List.isPrefixOf_iff_prefix.mpr below, if_neg Bool.true_eq_false.mp, found]
    dsimp only
    rw [resolved]
    dsimp only
    rw [List.isPrefixOf_iff_prefix.mpr (ofPlace_prefix_iff.mpr inside),
      if_neg Bool.true_eq_false.mp]
  · rw [FileHost.openedForWriting, last]

/-- A write stays inside the root exactly where no link leads it out. -/
theorem staysInside_iff (host : FileHost) (root : List Component) (path : String) :
    StaysInside host root path ↔ ¬ LeavesByLink host root path := by
  constructor
  · intro stays leaves
    obtain ⟨real, answer, place, canonical, accepted, written, outside⟩ := leaves.written
    exact outside (stays real canonical answer accepted place written)
  · intro stays real canonical answer accepted place written
    by_contra outside
    exact stays (leavesByLink_of_written canonical accepted written outside)

section Escape

/-- The directory w holds a link to a free name of the directory t. -/
def linkedNode (place : Place) : Option Node :=
  if place = [] ∨ place = ["w"] ∨ place = ["t"] then some .dir
  else if place = ["w", "l"] then some (.link [.rootDir, .normal "t", .normal "x"])
  else none

def linkedHost : FileHost where
  node := linkedNode
  rootDir := rfl
  insideDir := by
    intro place name present
    match place with
    | [] => rfl
    | [first] =>
        by_cases inside : first = "w"
        · rw [inside]
          rfl
        · simp [linkedNode, inside] at present
    | first :: second :: rest => simp [linkedNode] at present
  currentDir := ["w"]
  linkLimit := 40
  errorText := fun _ => "No such file or directory (os error 2)"

/-- The link of the sample leads out. -/
theorem not_staysInside : ¬ StaysInside linkedHost [.rootDir, .normal "w"] "l" := by
  intro stays
  have outside := stays ["w"] rfl [.rootDir, .normal "w", .normal "l"] rfl ["t", "x"] rfl
  revert outside
  decide

end Escape

end FramaCMcp.OutputPath
