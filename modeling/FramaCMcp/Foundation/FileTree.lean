/-
This file gives the components of slash-separated paths, a tree of directories, files and symbolic
links, and how a path is followed in it.
-/

import Mathlib.Data.List.Induction
import Mathlib.Data.List.Infix
import FramaCMcp.Foundation.Text

namespace Path

inductive Component where
  | rootDir
  | curDir
  | parentDir
  | normal (name : String)
  deriving DecidableEq, Repr

def isAbsolute (path : String) : Bool := Text.startsWith path "/"

/-- An empty part and an inner dot are no component. -/
def partComponent (part : String) : Option Component :=
  if part = "" ∨ part = "." then none
  else if part = ".." then some .parentDir
  else some (.normal part)

def parts (path : String) : List String :=
  (path.toList.splitOn '/').map String.ofList

/-- A leading dot is a component of a relative path. -/
def components (path : String) : List Component :=
  if isAbsolute path then .rootDir :: (parts path).filterMap partComponent
  else match parts path with
    | "." :: rest => .curDir :: rest.filterMap partComponent
    | all => all.filterMap partComponent

/-- Only a normal last component is a file name. -/
def lastName (components : List Component) : Option String :=
  match components.getLast? with
  | some (.normal name) => some name
  | _ => none

def fileName (path : String) : Option String := lastName (components path)

/-- The empty path and the root have no parent. -/
def parent (path : String) : Option (List Component) :=
  match (components path).getLast? with
  | none => none
  | some .rootDir => none
  | some _ => some (components path).dropLast

/-- Separators and dots at the end belong to no component. The characters are in reverse. -/
def trimTail : List Char → List Char
  | '/' :: letter :: rest => trimTail (letter :: rest)
  | '.' :: '/' :: rest => trimTail ('/' :: rest)
  | rest => rest

/-- This is the text of a path before its last component. -/
def parentText (path : String) : Option String :=
  match trimTail path.toList.reverse with
  | [] => none
  | ['/'] => none
  | tail => some (String.ofList (trimTail (tail.dropWhile fun letter => letter != '/')).reverse)

/-- A relative path is appended after one separator. -/
def join (directory file : String) : String :=
  if directory = "" ∨ Text.endsWith directory "/" = true then directory ++ file
  else directory ++ "/" ++ file

end Path

/-- This structure answers the reads of one moment. -/
structure FileSystem where
  isFile : String → Bool
  read : String → Except String ByteArray

namespace Path

/-- The names that lead down from the root. -/
abbrev Place := List String

inductive Node where
  | dir
  | file
  | link (target : List Component)
  deriving DecidableEq

/-- Every entry is in a directory. -/
structure FileTree where
  node : Place → Option Node
  rootDir : node [] = some .dir
  insideDir : ∀ place name, (node (place ++ [name])).isSome → node place = some .dir

/-- A walk ends at an entry, with so many links left, or at the free name of a directory. -/
inductive Walk where
  | found (place : Place) (left : Nat)
  | missing (place : Place)
  | blocked
  deriving DecidableEq

/-- The walk goes on with further steps, so its end must be an entry. -/
def Walk.andThen (walk : Walk) (next : Nat → Place → Walk) : Walk :=
  match walk with
  | .found place left => next left place
  | _ => .blocked

namespace FileTree

variable (tree : FileTree)

/-- A link in the walk is replaced by its target. -/
def follow (left : Nat) (next : Place → List Component → Walk) : Place → List Component → Walk
  | place, [] => .found place left
  | place, step :: rest =>
      if tree.node place = some .dir then
        match step with
        | .rootDir => follow left next [] rest
        | .curDir => follow left next place rest
        | .parentDir => follow left next place.dropLast rest
        | .normal name =>
            match tree.node (place ++ [name]) with
            | none => if rest = [] then .missing (place ++ [name]) else .blocked
            | some (.link target) => next place (target ++ rest)
            | some _ => follow left next (place ++ [name]) rest
      else .blocked

/-- The first number bounds the links that are followed. -/
def walk : Nat → Place → List Component → Walk
  | 0 => tree.follow 0 fun _ _ => .blocked
  | left + 1 => tree.follow (left + 1) (walk left)

theorem follow_cons (left : Nat) (next : Place → List Component → Walk) (place : Place)
    (step : Component) (rest : List Component) : tree.follow left next place (step :: rest) =
      if tree.node place = some .dir then
        match step with
        | .rootDir => tree.follow left next [] rest
        | .curDir => tree.follow left next place rest
        | .parentDir => tree.follow left next place.dropLast rest
        | .normal name =>
            match tree.node (place ++ [name]) with
            | none => if rest = [] then .missing (place ++ [name]) else .blocked
            | some (.link target) => next place (target ++ rest)
            | some _ => tree.follow left next (place ++ [name]) rest
      else .blocked := rfl

theorem follow_append {left : Nat} {next : Place → List Component → Walk} {second : List Component}
    (onward : Nat → Place → Walk) (more : second ≠ [])
    (here : ∀ place, tree.follow left next place second = onward left place)
    (linked : ∀ place steps, next place (steps ++ second) = (next place steps).andThen onward)
    (place : Place) (first : List Component) :
    tree.follow left next place (first ++ second) =
      (tree.follow left next place first).andThen onward := by
  induction first generalizing place with
  | nil => exact here place
  | cons step rest ih =>
      rw [List.cons_append, follow_cons, follow_cons]
      by_cases inside : tree.node place = some .dir
      case neg => rw [if_neg inside, if_neg inside]; rfl
      rw [if_pos inside, if_pos inside]
      cases step with
      | rootDir => exact ih []
      | curDir => exact ih place
      | parentDir => exact ih place.dropLast
      | normal name =>
          dsimp only
          cases found : tree.node (place ++ [name]) with
          | none =>
              have longer : rest ++ second ≠ [] :=
                fun empty => more (List.append_eq_nil_iff.mp empty).2
              rw [if_neg longer]
              dsimp only
              split_ifs <;> rfl
          | some node =>
              cases node with
              | dir => exact ih (place ++ [name])
              | file => exact ih (place ++ [name])
              | link target =>
                  dsimp only
                  rw [← List.append_assoc]
                  exact linked place (target ++ rest)

/-- A walk of two parts follows the second part from the end of the first one. -/
theorem walk_append {second : List Component} (more : second ≠ []) (left : Nat) (place : Place)
    (first : List Component) : tree.walk left place (first ++ second) =
      (tree.walk left place first).andThen fun left next => tree.walk left next second := by
  induction left generalizing place first with
  | zero => exact tree.follow_append _ more (fun _ => rfl) (fun _ _ => rfl) place first
  | succ left ih => exact tree.follow_append _ more (fun _ => rfl) (fun place => ih place) place first

/-- A link is followed where the bound allows it. -/
def throughLink : Nat → Place → List Component → Walk
  | 0, _, _ => .blocked
  | left + 1, place, target => tree.walk left place target

/-- One name leads to an entry, to a free name or through a link. -/
theorem walk_name (left : Nat) (place : Place) (name : String) :
    tree.walk left place [.normal name] =
      if tree.node place = some .dir then
        match tree.node (place ++ [name]) with
        | none => .missing (place ++ [name])
        | some (.link target) => tree.throughLink left place target
        | some _ => .found (place ++ [name]) left
      else .blocked := by
  cases left with
  | zero =>
      rw [walk, follow_cons]
      dsimp only
      cases found : tree.node (place ++ [name]) with
      | none => rfl
      | some node => cases node <;> rfl
  | succ left =>
      rw [walk, follow_cons]
      dsimp only
      cases found : tree.node (place ++ [name]) with
      | none => rfl
      | some node =>
          cases node with
          | link target => dsimp only; rw [List.append_nil]; rfl
          | _ => rfl

end FileTree

/-- A relative path starts at the current directory. The system bounds the links of one path. -/
structure FileHost extends FileTree where
  currentDir : Place
  linkLimit : Nat
  errorText : List Component → String

namespace FileHost

variable (host : FileHost)

/-- The empty path names nothing. -/
def resolve : List Component → Walk
  | [] => .blocked
  | .rootDir :: steps => host.walk host.linkLimit [] steps
  | steps => host.walk host.linkLimit host.currentDir steps

def pathExists (path : List Component) : Bool :=
  match host.resolve path with
  | .found _ _ => true
  | _ => false

def canonicalize (path : List Component) : Except String Place :=
  match host.resolve path with
  | .found place _ => .ok place
  | _ => .error (host.errorText path)

/-- A file is opened to be written, and it is created where its name is free. -/
def openedForWriting (path : List Component) : Option Place :=
  match host.resolve path with
  | .found place _ => if host.node place = some .file then some place else none
  | .missing place => some place
  | .blocked => none

theorem resolve_append {first second : List Component} (starts : first ≠ []) (more : second ≠ []) :
    host.resolve (first ++ second) =
      (host.resolve first).andThen fun left place => host.walk left place second := by
  obtain ⟨step, rest, rfl⟩ := List.exists_cons_of_ne_nil starts
  cases step with
  | rootDir => exact host.walk_append more _ _ rest
  | curDir => exact host.walk_append more _ _ (.curDir :: rest)
  | parentDir => exact host.walk_append more _ _ (.parentDir :: rest)
  | normal name => exact host.walk_append more _ _ (.normal name :: rest)

theorem pathExists_iff {path : List Component} :
    host.pathExists path = true ↔ ∃ place left, host.resolve path = .found place left := by
  rw [pathExists]
  cases host.resolve path <;> simp

end FileHost

/-- The path of a place has no link and no dots. -/
def ofPlace (place : Place) : List Component := .rootDir :: place.map .normal

theorem ofPlace_prefix_iff {above below : Place} :
    ofPlace above <+: ofPlace below ↔ above <+: below := by
  rw [ofPlace, ofPlace, List.cons_prefix_cons, and_iff_right rfl,
    List.prefix_map_iff_of_injective fun _ _ same => Component.normal.inj same]

/-- A path goes before the paths of its parents. -/
def ancestors (path : List Component) : List (List Component) := path.inits.reverse

theorem ancestors_append (path : List Component) (last : Component) :
    ancestors (path ++ [last]) = (path ++ [last]) :: ancestors path := by
  rw [ancestors, List.inits_append, List.reverse_append]
  rfl

theorem find_ancestors_self {test : List Component → Bool} {path : List Component}
    (passes : test path = true) : (ancestors path).find? test = some path := by
  induction path using List.reverseRecOn with
  | nil => exact List.find?_cons_of_pos passes
  | append_singleton path last _ =>
      rw [ancestors_append]
      exact List.find?_cons_of_pos passes

/-- The first ancestor that passes a test ends where the next component makes it fail. -/
theorem find_ancestors {test : List Component → Bool} {path found : List Component}
    (first : (ancestors path).find? test = some found) :
    test found = true ∧ (found = path ∨ ∃ next rest, path = found ++ next :: rest ∧
      test (found ++ [next]) = false) := by
  induction path using List.reverseRecOn with
  | nil =>
      refine ⟨List.find?_some first, .inl ?_⟩
      exact List.mem_singleton.mp (List.mem_of_find?_eq_some first)
  | append_singleton path last ih =>
      rw [ancestors_append, List.find?_cons] at first
      cases passes : test (path ++ [last]) with
      | true =>
          rw [passes] at first
          cases first
          exact ⟨passes, .inl rfl⟩
      | false =>
          rw [passes] at first
          obtain ⟨own, rfl | ⟨next, rest, rfl, fails⟩⟩ := ih first
          · exact ⟨own, .inr ⟨last, [], rfl, passes⟩⟩
          · exact ⟨own, .inr ⟨next, rest ++ [last], by simp, fails⟩⟩

end Path
