/-
This file proves that a shell reads the preprocessor arguments as they were meant.
-/

import FramaCMcp.Construction.LoadCommand
import FramaCMcp.Foundation.ShellWords

namespace FramaCMcp.LoadCommand

open Receipt ShellWords

def flagWords (written : Option String) (options : ProjectLoadOptions) : List (List String) :=
  (if options.nostdinc then [["-nostdinc"]] else []) ++
    options.includePaths.map (fun path => ["-I" ++ path]) ++
    options.isystemPaths.map (fun path => ["-isystem", path]) ++
    options.defines.map (fun define => ["-D" ++ define]) ++
    options.forceIncludes.map (fun header => ["-include", header]) ++
    (options.builtinModels.map fun _ => ["-include", builtinHeader written]).toList

def cppWords (written : Option String) (options : ProjectLoadOptions) : List String :=
  (flagWords written options).flatten

/-- The text is a nonempty value for the preprocessor. -/
def IsCppValue (text : String) : Prop :=
  text ≠ "" ∧ ∀ letter ∈ text.toList, isCppArgChar letter = true

theorem isBare_of_isCppArgChar {letter : Char} (allowed : isCppArgChar letter = true) :
    isBare letter = true := by
  have refused : [' ', '\t', '\n', '\'', '"', '\\'].all (fun quoting => !isCppArgChar quoting) =
      true := by decide
  by_contra quoting
  have listed : letter ∈ [' ', '\t', '\n', '\'', '"', '\\'] := by
    simp [isBare, isSeparator] at quoting ⊢
    tauto
  have blocked := List.all_eq_true.mp refused letter listed
  rw [allowed] at blocked
  cases blocked

theorem not_special_of_isCppArgChar {letter : Char} (allowed : isCppArgChar letter = true) :
    letter ∉ specialCharacters := by
  have refused : specialCharacters.all (fun special => !isCppArgChar special) = true := by decide
  intro special
  have blocked := List.all_eq_true.mp refused letter special
  rw [allowed] at blocked
  cases blocked

theorem IsCppValue.append {first second : String} (value : IsCppValue first)
    (other : IsCppValue second) : IsCppValue (first ++ second) := by
  constructor
  · intro empty
    exact value.1 (String.append_eq_empty_iff.mp empty).1
  · intro letter member
    rw [String.toList_append] at member
    exact (List.mem_append.mp member).elim (value.2 letter) (other.2 letter)

theorem isCppValue_of_validateCppEntries {entries : List String} {complaint : String}
    (valid : validateCppEntries entries complaint = .ok ()) :
    ∀ entry ∈ entries, IsCppValue entry := by
  unfold validateCppEntries at valid
  split_ifs at valid with unusable
  intro entry member
  have usable : ¬ (entry == "" || hasDash entry || !entry.toList.all isCppArgChar) = true :=
    fun bad => unusable (List.any_eq_true.mpr ⟨entry, member, bad⟩)
  simp only [Bool.or_eq_true, beq_iff_eq, Bool.not_eq_true', Bool.not_eq_false, not_or,
    List.all_eq_true] at usable
  exact ⟨usable.1.1, usable.2⟩

/-- The four lists of an accepted request hold values only. -/
theorem validateProjectOptions_lists {options : ProjectLoadOptions}
    (valid : validateProjectOptions options = .ok ()) :
    ∀ entry ∈ options.includePaths ++ options.defines ++ options.forceIncludes ++
      options.isystemPaths, IsCppValue entry := by
  simp only [validateProjectOptions, bind, Except.bind] at valid
  split at valid
  · cases valid
  rename_i includePaths
  split at valid
  · cases valid
  rename_i defines
  split at valid
  · cases valid
  rename_i forceIncludes
  split at valid
  · cases valid
  rename_i isystemPaths
  intro entry member
  simp only [List.mem_append] at member
  rcases member with ((inside | inside) | inside) | inside
  · exact isCppValue_of_validateCppEntries includePaths entry inside
  · exact isCppValue_of_validateCppEntries defines entry inside
  · exact isCppValue_of_validateCppEntries forceIncludes entry inside
  · exact isCppValue_of_validateCppEntries isystemPaths entry inside

theorem isCppValue_flag {flag : String} (fixed : flag ∈ ["-nostdinc", "-I", "-isystem", "-D",
    "-include"]) : IsCppValue flag := by
  have values : ∀ flag ∈ ["-nostdinc", "-I", "-isystem", "-D", "-include"],
      flag ≠ "" ∧ flag.toList.all isCppArgChar = true := by decide
  exact ⟨(values flag fixed).1, List.all_eq_true.mp (values flag fixed).2⟩

/-- The words of a flag are values, and the first one opens with a dash. -/
def IsFlag (group : List String) : Prop :=
  (∃ first rest, group = first :: rest ∧ first.toList.head? = some '-') ∧
    ∀ word ∈ group, IsCppValue word

theorem isFlag_attached {flag value : String} (fixed : flag = "-I" ∨ flag = "-D")
    (allowed : IsCppValue value) : IsFlag [flag ++ value] := by
  constructor
  · refine ⟨_, [], rfl, ?_⟩
    rw [String.toList_append]
    rcases fixed with rfl | rfl <;> rfl
  · intro word member
    rw [List.mem_singleton.mp member]
    apply IsCppValue.append _ allowed
    rcases fixed with rfl | rfl <;> exact isCppValue_flag (by decide)

theorem isFlag_pair {flag value : String} (fixed : flag = "-isystem" ∨ flag = "-include")
    (allowed : IsCppValue value) : IsFlag [flag, value] := by
  constructor
  · refine ⟨flag, [value], rfl, ?_⟩
    rcases fixed with rfl | rfl <;> rfl
  · intro word member
    rcases List.mem_pair.mp member with rfl | rfl
    · rcases fixed with rfl | rfl <;> exact isCppValue_flag (by decide)
    · exact allowed

theorem isFlag_flagWords {written : Option String} {options : ProjectLoadOptions}
    (valid : validateProjectOptions options = .ok ())
    (header : options.builtinModels.isSome → IsCppValue (builtinHeader written)) :
    ∀ group ∈ flagWords written options, IsFlag group := by
  have lists := validateProjectOptions_lists valid
  simp only [List.mem_append] at lists
  intro group member
  simp only [flagWords, List.mem_append] at member
  rcases member with ((((nostdinc | paths) | systems) | defines) | includes) | builtin
  · split_ifs at nostdinc
    · obtain rfl := List.mem_singleton.mp nostdinc
      refine ⟨⟨_, [], rfl, rfl⟩, fun word listed => ?_⟩
      rw [List.mem_singleton.mp listed]
      exact isCppValue_flag (by decide)
    · cases nostdinc
  · obtain ⟨path, given, rfl⟩ := List.mem_map.mp paths
    exact isFlag_attached (.inl rfl) (lists path (.inl (.inl (.inl given))))
  · obtain ⟨path, given, rfl⟩ := List.mem_map.mp systems
    exact isFlag_pair (.inl rfl) (lists path (.inr given))
  · obtain ⟨define, given, rfl⟩ := List.mem_map.mp defines
    exact isFlag_attached (.inr rfl) (lists define (.inl (.inl (.inr given))))
  · obtain ⟨header, given, rfl⟩ := List.mem_map.mp includes
    exact isFlag_pair (.inr rfl) (lists header (.inl (.inr given)))
  · obtain ⟨digest, given, rfl⟩ := Option.map_eq_some_iff.mp (Option.mem_toList.mp builtin)
    exact isFlag_pair (.inr rfl) (header (by rw [given]; rfl))

/-- Groups of words are written like the words of the groups. -/
theorem join_groups {groups : List (List String)} (filled : ∀ group ∈ groups, group ≠ []) :
    Text.join (groups.map fun group => Text.join group " ") " " =
      Text.join groups.flatten " " := by
  unfold Text.join
  induction groups with
  | nil => rfl
  | cons group rest ih =>
      obtain ⟨own, others⟩ := List.forall_mem_cons.mp filled
      cases rest with
      | nil => simp
      | cons next later =>
          have behind : (next :: later).flatten ≠ [] :=
            List.append_ne_nil_of_left_ne_nil (others next List.mem_cons_self) _
          have mapped : (next :: later).map (fun group => " ".intercalate group) ≠ [] :=
            List.cons_ne_nil _ _
          rw [List.map_cons, String.intercalate_cons_of_ne_nil mapped, ih others,
            ← String.intercalate_append_of_ne_nil own behind]
          rfl

theorem cppExtraArgs_eq (written : Option String) (options : ProjectLoadOptions) :
    cppExtraArgs written options =
      if (flagWords written options).isEmpty then none
      else some (Text.join ((flagWords written options).map fun group => Text.join group " ") " ") := by
  have flags : (flagWords written options).map (fun group => Text.join group " ") =
      (if options.nostdinc then ["-nostdinc"] else []) ++ options.includePaths.map ("-I" ++ ·) ++
        options.isystemPaths.map ("-isystem " ++ ·) ++ options.defines.map ("-D" ++ ·) ++
        options.forceIncludes.map ("-include " ++ ·) ++
        (options.builtinModels.map fun _ => "-include " ++ builtinHeader written).toList := by
    have attached (flag : String) (values : List String) :
        (values.map fun value => [flag ++ value]).map (fun group => Text.join group " ") =
          values.map (flag ++ ·) := by
      rw [List.map_map]
      apply List.map_congr_left
      intro value _
      simp [Text.join]
    have apart (flag : String) (values : List String) :
        (values.map fun value => [flag, value]).map (fun group => Text.join group " ") =
          values.map (flag ++ " " ++ ·) := by
      rw [List.map_map]
      apply List.map_congr_left
      intro value _
      simp [Text.join]
    simp only [flagWords, List.map_append, attached, apart]
    congr 1
    · split_ifs <;> rfl
    · cases options.builtinModels <;> simp [Text.join]
  rw [cppExtraArgs, ← flags]
  simp only [List.isEmpty_map]

/-- A shell reads the meant words, nothing in them is special to it, and no word before a command
assigns, since the first one opens with a dash. -/
theorem cppExtraArgs_words (written : Option String) (options : ProjectLoadOptions)
    (valid : validateProjectOptions options = .ok ())
    (header : options.builtinModels.isSome → IsCppValue (builtinHeader written)) :
    (cppExtraArgs written options = none ↔ cppWords written options = []) ∧
      ∀ value, cppExtraArgs written options = some value →
        posixWords value.toList = some ((cppWords written options).map String.toList) ∧
          (∀ letter ∈ value.toList, letter ∉ specialCharacters) ∧
          value.toList.head? = some '-' := by
  have isFlag := isFlag_flagWords valid header
  have filled : ∀ group ∈ flagWords written options, group ≠ [] := by
    intro group member
    obtain ⟨first, rest, rfl, -⟩ := (isFlag group member).1
    exact List.cons_ne_nil first rest
  have values : ∀ word ∈ cppWords written options, IsCppValue word := by
    intro word member
    obtain ⟨group, listed, inside⟩ := List.mem_flatten.mp member
    exact (isFlag group listed).2 word inside
  rw [cppExtraArgs_eq, join_groups filled]
  cases groups : flagWords written options with
  | nil => simp [cppWords, groups]
  | cons group rest =>
      obtain ⟨first, words, rfl, dash⟩ := (isFlag group (by rw [groups]; exact List.mem_cons_self)).1
      have cons : cppWords written options = first :: (words ++ rest.flatten) := by
        rw [cppWords, groups]
        rfl
      refine ⟨by simp [cons], fun value written => ?_⟩
      obtain rfl := Option.some.inj written
      rw [show ((first :: words) :: rest).flatten = first :: (words ++ rest.flatten) from rfl, ← cons,
        Text.join, String.toList_intercalate]
      refine ⟨posixWords_intercalate ?_, fun letter member => ?_, ?_⟩
      · intro word member
        obtain ⟨text, listed, rfl⟩ := List.mem_map.mp member
        refine ⟨fun empty => (values text listed).1 (String.toList_eq_nil_iff.mp empty),
          fun letter inside => isBare_of_isCppArgChar ((values text listed).2 letter inside)⟩
      · rcases mem_intercalate member with rfl | ⟨word, listed, inside⟩
        · decide
        · obtain ⟨text, given, rfl⟩ := List.mem_map.mp listed
          exact not_special_of_isCppArgChar ((values text given).2 letter inside)
      · rw [cons, List.map_cons]
        obtain ⟨letter, letters, split⟩ : ∃ letter letters, first.toList = letter :: letters := by
          cases split : first.toList with
          | nil =>
              rw [split] at dash
              cases dash
          | cons letter letters => exact ⟨letter, letters, rfl⟩
        rw [split] at dash ⊢
        change ([' '].intercalate ((letter :: letters) :: _)).head? = some '-'
        rw [List.intercalate_cons_cons_left]
        exact dash

/-- This request has an entry in each list. -/
def crossOptions : ProjectLoadOptions where
  includePaths := ["include", "src/a+b"]
  defines := ["_Atomic=", "N=4"]
  forceIncludes := ["builtins.h"]
  isystemPaths := ["libc/include"]
  nostdinc := true
  builtinModels := some "digest"

theorem cppExtraArgs_words_cross :
    ∃ value, cppExtraArgs (some "/tmp/frama-c-mcp-builtins-x.h") crossOptions = some value ∧
      posixWords value.toList = some ((cppWords (some "/tmp/frama-c-mcp-builtins-x.h")
        crossOptions).map String.toList) ∧
      (∀ letter ∈ value.toList, letter ∉ specialCharacters) ∧ value.toList.head? = some '-' :=
  ⟨_, rfl, (cppExtraArgs_words (some "/tmp/frama-c-mcp-builtins-x.h") crossOptions (by decide)
    fun _ => ⟨by decide, List.all_eq_true.mp (by decide)⟩).2 _ rfl⟩

end FramaCMcp.LoadCommand
