/-
This file proves that a kept parse record answers for the tree in the process.
-/

import FramaCMcp.Foundation.JsonUnique
import FramaCMcp.Foundation.Lines
import FramaCMcp.Proof.SessionCaches

namespace FramaCMcp.MainProcess

open Receipt LoadCommand

/-- Other writes are added to the disk, and no hashed text is forgotten. -/
structure World.Grows (world after : World) : Prop where
  disk : world.disk <+: after.disk
  hashed : ∀ text ∈ world.hashed, text ∈ after.hashed

theorem World.Grows.refl (world : World) : world.Grows world :=
  ⟨List.prefix_refl _, fun _ member => member⟩

theorem World.Grows.trans {first middle last : World} (early : first.Grows middle)
    (late : middle.Grows last) : first.Grows last :=
  ⟨early.disk.trans late.disk, fun text member => late.hashed text (early.hashed text member)⟩

theorem World.grows_advance (world : World) : world.Grows world.advance :=
  ⟨List.prefix_append _ _, fun _ member => member⟩

/-- This is what a parse finds behind a name. -/
def Disk.content (disk : Disk) (name : String) : Option Bytes :=
  (disk.openFile name).toOption.map Prod.snd

/-- This is what a sample records of a name besides the digest. -/
def Disk.stamp (clock : Clock) (disk : Disk) (name : String) : Except String (Option Nat) :=
  (disk.openFile name).map fun file => clock name file.1

/-- Where a name has one stamp at two times, its file is the same at any time between. -/
theorem openFile_between {clock : Clock} {name : String}
    (separate : Function.Injective (clock name)) {first middle final : Disk}
    (early : first <+: middle) (late : middle <+: final)
    (same : first.stamp clock name = final.stamp clock name) :
    middle.openFile name = first.openFile name := by
  unfold Disk.stamp at same
  unfold Disk.openFile at same ⊢
  split_ifs with nul
  · rfl
  · rw [if_neg nul, if_neg nul] at same
    have places : (History.last (fun write => write.names.contains name) first).map Prod.fst =
        (History.last (fun write => write.names.contains name) final).map Prod.fst := by
      unfold Disk.file at same
      cases old : History.last (fun write => write.names.contains name) first with
      | none =>
          cases new : History.last (fun write => write.names.contains name) final with
          | none => rfl
          | some found =>
              rw [old, new] at same
              cases same
      | some found =>
          cases new : History.last (fun write => write.names.contains name) final with
          | none =>
              rw [old, new] at same
              cases same
          | some found' =>
              rw [old, new] at same
              exact congrArg some (separate (Except.ok.inj same))
    unfold Disk.file
    rw [History.last_between early late places]

theorem file_isSome_of_extension {name : String} {earlier later : Disk} (grown : earlier <+: later)
    (file : (earlier.file name).isSome) : (later.file name).isSome := by
  unfold Disk.file at file ⊢
  rw [Option.isSome_map] at file ⊢
  rcases @History.last_of_extension _ (fun write : Write => write.names.contains name) _ _ grown with
    kept | ⟨place, entry, found, -⟩
  · rwa [kept]
  · rw [found]
    rfl

/-- Each of these chunks was read from the disk between two worlds. -/
def Between (world after : World) (disk : Disk) : Prop := world.disk <+: disk ∧ disk <+: after.disk

variable {outer world after last : World}

theorem Between.mono {disk : Disk} (between : Between world after disk) (early : outer.Grows world)
    (late : after.Grows last) : Between outer last disk :=
  ⟨early.disk.trans between.1, between.2.trans late.disk⟩

/-- Each chunk ends with the character that no name has. -/
def terminated (chunks : List String) : List Char :=
  (chunks.map String.toList).flatMap (· ++ ['\x00'])

theorem terminated_append (left right : List String) :
    terminated (left ++ right) = terminated left ++ terminated right := by
  rw [terminated, List.map_append, List.flatMap_append]
  rfl

theorem terminated_cons (chunk : String) (chunks : List String) :
    terminated (chunk :: chunks) = chunk.toList ++ ['\x00'] ++ terminated chunks := rfl

/-- The mark between the parts does not stand in the second one. -/
theorem split_at_mark {Letter : Type} [BEq Letter] [LawfulBEq Letter] {mark : Letter}
    {left right tail rest : List Letter} (free : mark ∉ tail) (free' : mark ∉ rest)
    (same : left ++ mark :: tail = right ++ mark :: rest) : left = right ∧ tail = rest := by
  have turned := congrArg List.reverse same
  simp only [List.reverse_append, List.reverse_cons, List.append_assoc, List.singleton_append]
    at turned
  have tails := congrArg (List.splitOn mark) turned
  rw [List.splitOn_append_cons_self_of_not_mem (by simpa using free),
    List.splitOn_append_cons_self_of_not_mem (by simpa using free')] at tails
  obtain rfl := List.reverse_injective (List.cons.inj tails).1
  exact ⟨List.append_cancel_right same, rfl⟩

theorem toList_debugTime (written : Nat) :
    (debugTime (some written)).toList =
      ['S', 'o', 'm', 'e'] ++ '(' :: (Nat.toDigits 10 written ++ [')']) := by
  simp only [debugTime, String.toList_append, ← Nat.toList_repr]
  rfl

theorem mem_digits {written : Nat} {letter : Char} (member : letter ∈ Nat.toDigits 10 written) :
    letter.isDigit := Nat.isDigit_of_mem_toDigits (by decide) (by decide) member

/-- A name and a time can be read back from the text of both. -/
theorem debugTime_injective {name name' : List Char} {written written' : Option Nat}
    (same : name ++ (debugTime written).toList = name' ++ (debugTime written').toList) :
    name = name' ∧ written = written' := by
  have ends (name : List Char) (written : Nat) :
      (name ++ (debugTime (some written)).toList).getLast? = some ')' := by
    rw [toList_debugTime, ← List.cons_append, ← List.append_assoc, ← List.append_assoc]
    exact List.getLast?_concat ..
  have endsNone (name : List Char) : (name ++ (debugTime none).toList).getLast? = some 'e' := by
    rw [show (debugTime none).toList = ['N', 'o', 'n'] ++ ['e'] from rfl, ← List.append_assoc]
    exact List.getLast?_concat ..
  cases written with
  | none =>
      cases written' with
      | none => exact ⟨List.append_cancel_right same, rfl⟩
      | some written' =>
          have last := congrArg List.getLast? same
          rw [ends, endsNone] at last
          exact absurd last (by decide)
  | some written =>
      cases written' with
      | none =>
          have last := congrArg List.getLast? same
          rw [ends, endsNone] at last
          exact absurd last (by decide)
      | some written' =>
          rw [toList_debugTime, toList_debugTime, ← List.append_assoc, ← List.append_assoc] at same
          have free (written : Nat) : '(' ∉ Nat.toDigits 10 written ++ [')'] := by
            intro member
            rcases List.mem_append.mp member with digit | close
            · exact absurd (mem_digits digit) (by decide)
            · exact absurd close (by decide)
          obtain ⟨names, digits⟩ := split_at_mark (free written) (free written') same
          refine ⟨List.append_cancel_right names, congrArg some ?_⟩
          have texts := List.append_cancel_right digits
          rw [← Nat.toList_repr, ← Nat.toList_repr, String.toList_inj] at texts
          exact Json.nat_repr_inj texts

theorem stamp_cases (clock : Clock) (disk : Disk) {name : String} (free : hasNul name = false) :
    disk.stamp clock name = .error "No such file or directory (os error 2)" ∨
      ∃ written, disk.stamp clock name = .ok written := by
  unfold Disk.stamp Disk.openFile
  rw [if_neg (by simp [free])]
  cases disk.file name with
  | none => exact .inl rfl
  | some file => exact .inr ⟨_, rfl⟩

/-- The bytes were read from the disk between two worlds. -/
def ReadBetween (world after : World) (entry : String × Option Bytes) : Prop :=
  ∃ disk, Between world after disk ∧ entry.2 = disk.content entry.1

theorem ReadBetween.mono {entry : String × Option Bytes} (read : ReadBetween world after entry)
    (early : outer.Grows world) (late : after.Grows last) : ReadBetween outer last entry := by
  obtain ⟨disk, between, same⟩ := read
  exact ⟨disk, between.mono early late, same⟩

theorem readFile_spec (name : String) (world : World) :
    world.Grows (world.readFile name).2 ∧
      ReadBetween world (world.readFile name).2 (name, (world.readFile name).1) :=
  ⟨world.grows_advance, _, ⟨world.grows_advance.disk, List.prefix_refl _⟩, rfl⟩

theorem readFiles_spec (names : List String) (world : World) :
    world.Grows (world.readFiles names).2 ∧ (world.readFiles names).1.map Prod.fst = names ∧
      ∀ entry ∈ (world.readFiles names).1, ReadBetween world (world.readFiles names).2 entry := by
  induction names generalizing world with
  | nil => exact ⟨.refl world, rfl, by simp [World.readFiles]⟩
  | cons name names ih =>
      obtain ⟨first, read⟩ := readFile_spec name world
      obtain ⟨others, sameNames, reads⟩ := ih (world.readFile name).2
      simp only [World.readFiles]
      refine ⟨first.trans others, by rw [List.map_cons, sameNames], fun entry member => ?_⟩
      rcases List.mem_cons.mp member with rfl | later
      · exact read.mono (.refl world) others
      · exact (reads entry later).mono first (.refl _)

/-- The file of the machine description was read between two worlds. -/
def MachdepRead (machdep : Option String) (bytes : Option (Option Bytes)) (world after : World) :
    Prop :=
  Option.Rel (fun name content => ReadBetween world after (name, content)) machdep bytes

theorem MachdepRead.mono {machdep : Option String} {bytes : Option (Option Bytes)}
    (read : MachdepRead machdep bytes world after) (early : outer.Grows world)
    (late : after.Grows last) : MachdepRead machdep bytes outer last := by
  cases read with
  | none => exact .none
  | some read => exact .some (read.mono early late)

theorem readMachdep_spec (machdep : Option String) (world : World) :
    world.Grows (world.readMachdep machdep).2 ∧
      MachdepRead machdep (world.readMachdep machdep).1 world (world.readMachdep machdep).2 := by
  cases machdep with
  | none => exact ⟨.refl world, .none⟩
  | some name => exact ⟨(readFile_spec name world).1, .some (readFile_spec name world).2⟩

/-- The named files and the machine description were read between two worlds, and the preprocessor
chose the other files. -/
structure Parsed (preprocessor : Preprocessor) (files : List String) (options : ProjectLoadOptions)
    (sources : Sources) (world after : World) : Prop where
  names : sources.named.map Prod.fst = files
  named : ∀ entry ∈ sources.named, ReadBetween world after entry
  machdep : MachdepRead options.machdep sources.machdep world after
  included : sources.included.map Prod.fst = preprocessor options (sources.named.map Prod.snd)

theorem Parsed.mono {preprocessor : Preprocessor} {files : List String}
    {options : ProjectLoadOptions} {sources : Sources}
    (parsed : Parsed preprocessor files options sources world after) (early : outer.Grows world)
    (late : after.Grows last) : Parsed preprocessor files options sources outer last where
  names := parsed.names
  named entry member := (parsed.named entry member).mono early late
  machdep := parsed.machdep.mono early late
  included := parsed.included

theorem parse_parsed (preprocessor : Preprocessor) (files : List String)
    (options : ProjectLoadOptions) (world : World) :
    world.Grows (parse preprocessor files options world).2 ∧
      Parsed preprocessor files options (parse preprocessor files options world).1 world
        (parse preprocessor files options world).2 := by
  obtain ⟨machine, machdep⟩ := readMachdep_spec options.machdep world
  obtain ⟨named, sameNames, reads⟩ :=
    readFiles_spec files (world.readMachdep options.machdep).2
  obtain ⟨included, sameIncluded, -⟩ := readFiles_spec
    (preprocessor options
      (((world.readMachdep options.machdep).2.readFiles files).1.map Prod.snd))
    ((world.readMachdep options.machdep).2.readFiles files).2
  exact ⟨(machine.trans named).trans included, sameNames,
    fun entry member => (reads entry member).mono machine included,
    machdep.mono (.refl world) (named.trans included), sameIncluded⟩

theorem forall₂_pair {Left Right : Type} {first second : Left → Right → Prop} {left : List Left}
    {right : List Right} (firsts : List.Forall₂ first left right)
    (seconds : List.Forall₂ second left right) :
    ∀ entry ∈ left, ∃ partner, first entry partner ∧ second entry partner := by
  induction firsts with
  | nil => simp
  | cons here _ ih =>
      cases seconds with
      | cons there seconds =>
          rw [List.forall_mem_cons]
          exact ⟨⟨_, here, there⟩, ih seconds⟩

section

variable [Sha256] {clock : Clock}

/-- This is the part of the hashed text that belongs to one name. -/
def chunkText (name : String) (bytes : Bytes) : Except String (Option Nat) → String
  | .error error => name ++ error
  | .ok written => name ++ debugTime written ++ digestOf bytes

/-- A sample of one name records its stamp. Without a sign of a directive it records its bytes too. -/
structure Sample (clock : Clock) (world after : World) (name chunk : String) (mayInclude : Bool) :
    Prop where
  stamped : ∃ disk bytes, Between world after disk ∧
    chunk = chunkText name bytes (disk.stamp clock name)
  plain : mayInclude = false → ∃ disk bytes, Between world after disk ∧
    disk.content name = some bytes ∧ hasDirective bytes = false

theorem hashNamedFile_sample (clock : Clock) (name : String) (world : World) :
    world.Grows (hashNamedFile clock name world).2 ∧
      ∃ chunk, (hashNamedFile clock name world).1.1 = chunk ++ "\x00" ∧
        Sample clock world (hashNamedFile clock name world).2 name chunk
          (hashNamedFile clock name world).1.2 := by
  have opened := world.grows_advance
  have stamp : world.advance.disk.stamp clock name =
      (world.advance.disk.openFile name).map fun file => clock name file.1 := rfl
  cases found : world.advance.disk.openFile name with
  | error error =>
      rw [found] at stamp
      simp only [hashNamedFile, found]
      refine ⟨opened, name ++ error, rfl, ⟨⟨_, [], ⟨opened.disk, List.prefix_refl _⟩, ?_⟩, ?_⟩⟩
      · rw [stamp]
        rfl
      · intro plain
        cases plain
  | ok file =>
      obtain ⟨written, bytes⟩ := file
      rw [found] at stamp
      simp only [hashNamedFile, found]
      have read := world.advance.grows_advance
      refine ⟨opened.trans read, _, rfl, ⟨⟨world.advance.disk,
        ((world.advance.advance.disk.file name).map Prod.snd).getD [], ⟨opened.disk, read.disk⟩, ?_⟩,
        fun plain => ?_⟩⟩
      · rw [stamp]
        rfl
      · refine ⟨world.advance.advance.disk, _, ⟨opened.disk.trans read.disk, List.prefix_refl _⟩, ?_,
          plain⟩
        unfold Disk.openFile at found
        split_ifs at found with nul
        have there : (world.advance.disk.file name).isSome := by
          cases none : world.advance.disk.file name with
          | none =>
              rw [none] at found
              cases found
          | some file => rfl
        obtain ⟨final, last⟩ := Option.isSome_iff_exists.mp (file_isSome_of_extension read.disk there)
        unfold Disk.content Disk.openFile
        rw [if_neg nul, last]
        rfl

theorem Sample.mono {outer world after last : World} {name chunk : String} {flag whole : Bool}
    (sample : Sample clock world after name chunk flag) (early : outer.Grows world)
    (late : after.Grows last) (plain : whole = false → flag = false) :
    Sample clock outer last name chunk whole := by
  refine ⟨?_, fun all => ?_⟩
  · obtain ⟨disk, bytes, between, same⟩ := sample.stamped
    exact ⟨disk, bytes, between.mono early late, same⟩
  · obtain ⟨disk, bytes, between, same⟩ := sample.plain (plain all)
    exact ⟨disk, bytes, between.mono early late, same⟩

theorem hashNamedFiles_sample (clock : Clock) (names : List String) (world : World) :
    world.Grows (hashNamedFiles clock names world).2 ∧
      ∃ chunks, (hashNamedFiles clock names world).1.1.toList = terminated chunks ∧
        List.Forall₂ (fun name chunk => Sample clock world (hashNamedFiles clock names world).2 name
          chunk (hashNamedFiles clock names world).1.2) names chunks := by
  induction names generalizing world with
  | nil => exact ⟨.refl world, [], rfl, .nil⟩
  | cons name names ih =>
      obtain ⟨first, chunk, text, sample⟩ := hashNamedFile_sample clock name world
      obtain ⟨others, chunks, texts, samples⟩ := ih (hashNamedFile clock name world).2
      simp only [hashNamedFiles]
      refine ⟨first.trans others, chunk :: chunks, ?_, .cons ?_ (samples.imp ?_)⟩
      · rw [text, String.toList_append, texts, terminated_cons, String.toList_append]
        rfl
      · exact sample.mono (.refl world) others fun all => (Bool.or_eq_false_iff.mp all).1
      · intro other chunk' sample'
        exact sample'.mono first (.refl _) fun all => (Bool.or_eq_false_iff.mp all).2

/-- The text has one chunk for each file and one for the machine description, and each chunk was
sampled between two worlds. -/
def Identifies (clock : Clock) (files : List String) (machdep : Option String) (text : String)
    (mayInclude : Bool) (world after : World) : Prop :=
  ∃ chunks machine, text.toList = terminated (chunks ++ machine) ∧
    List.Forall₂ (fun name chunk => Sample clock world after name chunk mayInclude) files chunks ∧
    List.Forall₂ (fun name chunk => Sample clock world after name chunk true) machdep.toList machine

variable {machdep : Option String} {start sampled parsed last : World} {flag flag' : Bool}

theorem Identifies.mono {files : List String} {text : String} {mayInclude : Bool}
    {outer world after last : World}
    (identifies : Identifies clock files machdep text mayInclude world after)
    (early : outer.Grows world) (late : after.Grows last) :
    Identifies clock files machdep text mayInclude outer last := by
  obtain ⟨chunks, machine, written, named, machines⟩ := identifies
  exact ⟨chunks, machine, written, named.imp fun name chunk sample => sample.mono early late id,
    machines.imp fun name chunk sample => sample.mono early late id⟩

/-- A text that names the directives names the files too. -/
theorem Identifies.weaken {files : List String} {text : String} {mayInclude : Bool}
    {world after : World} (identifies : Identifies clock files machdep text mayInclude world after) :
    Identifies clock files machdep text true world after := by
  obtain ⟨chunks, machine, written, named, machines⟩ := identifies
  exact ⟨chunks, machine, written,
    named.imp fun name chunk sample => sample.mono (.refl _) (.refl _) (by simp), machines⟩

theorem loadedSourceText_identifies (clock : Clock) (files : List String) (machdep : Option String)
    (world : World) :
    world.Grows (loadedSourceText clock files machdep world).2 ∧
      Identifies clock files machdep (loadedSourceText clock files machdep world).1.1
        (loadedSourceText clock files machdep world).1.2 world
        (loadedSourceText clock files machdep world).2 := by
  obtain ⟨sources, chunks, texts, samples⟩ := hashNamedFiles_sample clock files world
  unfold loadedSourceText
  cases machdep with
  | none => exact ⟨sources, chunks, [], by rw [List.append_nil, texts], samples, .nil⟩
  | some machdep =>
      obtain ⟨machine, chunk, text, sample⟩ :=
        hashNamedFile_sample clock machdep (hashNamedFiles clock files world).2
      refine ⟨sources.trans machine, chunks, [chunk], ?_, samples.imp ?_, .cons ?_ .nil⟩
      · simp only [text, String.toList_append, texts, terminated_append, terminated_cons]
        rw [show terminated [] = [] from rfl, List.append_nil]
        rfl
      · exact fun name chunk sample => sample.mono (.refl world) machine id
      · exact sample.mono sources (.refl _) (by simp)

/-- A finished sample gives the digest of an identifying text. -/
theorem sourceIdentity_spec (clock : Clock) (finished : Bool) (files : List String)
    (machdep : Option String) (world : World) :
    world.Grows (sourceIdentity clock finished files machdep world).2 ∧
      if finished then
        ∃ text ∈ (sourceIdentity clock finished files machdep world).2.hashed,
          (sourceIdentity clock finished files machdep world).1.1 = Sha256.hexText text ∧
          Identifies clock files machdep text
            (sourceIdentity clock finished files machdep world).1.2 world
            (sourceIdentity clock finished files machdep world).2
      else (sourceIdentity clock finished files machdep world).1 = ("", true) := by
  cases finished with
  | false => exact ⟨.refl world, rfl⟩
  | true =>
      obtain ⟨grown, identifies⟩ := loadedSourceText_identifies clock files machdep world
      have kept : (loadedSourceText clock files machdep world).2.Grows
          (sourceIdentity clock true files machdep world).2 :=
        ⟨List.prefix_refl _, fun text member => List.mem_cons_of_mem _ member⟩
      exact ⟨grown.trans kept, _, List.mem_cons_self, rfl, identifies.mono (.refl world) kept⟩

/-- A digest is written with these digits. -/
def HexDigits : Prop :=
  ∀ bytes : ByteArray, ∀ digit ∈ (Sha256.hex bytes).toList, digit ∈ "0123456789abcdef".toList

theorem length_digestOf (bytes : Bytes) : (digestOf bytes).toList.length = 64 :=
  String.length_toList.trans (Sha256.hexLength _)

/-- The name and the stamp can be read back from a chunk. -/
theorem stamp_eq_of_chunkText (hex : HexDigits) {disk disk' : Disk} {name name' : String}
    {bytes bytes' : Bytes} (free : hasNul name = false) (free' : hasNul name' = false)
    (same : chunkText name bytes (disk.stamp clock name) =
      chunkText name' bytes' (disk'.stamp clock name')) :
    name = name' ∧ disk.stamp clock name = disk'.stamp clock name' := by
  have apart (name name' : String) (bytes : Bytes) (written : Option Nat) :
      chunkText name [] (.error "No such file or directory (os error 2)") ≠
        chunkText name' bytes (.ok written) := by
    intro same
    have last := congrArg (fun text : String => text.toList.getLast?) same
    simp only [chunkText, String.toList_append] at last
    have nonempty : (digestOf bytes).toList ≠ [] := by
      intro none
      have length := length_digestOf bytes
      rw [none] at length
      cases length
    rw [List.getLast?_append_of_ne_nil _ (by decide), List.getLast?_append_of_ne_nil _ nonempty,
      List.getLast?_eq_some_getLast nonempty] at last
    have digit := hex _ _ (List.getLast_mem nonempty)
    rw [← Option.some.inj last] at digit
    exact absurd digit (by decide)
  rcases stamp_cases clock disk free with missing | ⟨written, read⟩ <;>
    rcases stamp_cases clock disk' free' with missing' | ⟨written', read'⟩
  · rw [missing, missing'] at same ⊢
    refine ⟨?_, rfl⟩
    have texts := congrArg String.toList same
    simp only [chunkText, String.toList_append] at texts
    exact String.toList_inj.mp (List.append_cancel_right texts)
  · rw [missing, read'] at same
    exact absurd same (apart name name' bytes' written')
  · rw [read, missing'] at same
    exact absurd same.symm (apart name' name bytes written)
  · rw [read, read'] at same ⊢
    have texts := congrArg String.toList same
    simp only [chunkText, String.toList_append] at texts
    have heads := (List.append_inj' texts (by rw [length_digestOf, length_digestOf])).1
    obtain ⟨names, times⟩ := debugTime_injective heads
    exact ⟨String.toList_inj.mp names, congrArg Except.ok times⟩

/-- The character that ends a chunk does not stand in it. -/
theorem nul_notMem_chunkText (hex : HexDigits) {disk : Disk} {name : String} (bytes : Bytes)
    (free : hasNul name = false) :
    '\x00' ∉ (chunkText name bytes (disk.stamp clock name)).toList := by
  have inName : '\x00' ∉ name.toList := by
    simpa [hasNul] using free
  rcases stamp_cases clock disk free with missing | ⟨written, read⟩
  · rw [missing, chunkText, String.toList_append]
    exact fun member => (List.mem_append.mp member).elim inName (by decide)
  · rw [read, chunkText, String.toList_append, String.toList_append]
    intro member
    rcases List.mem_append.mp member with member | digit
    · rcases List.mem_append.mp member with member | time
      · exact inName member
      · cases written with
        | none => exact absurd time (by decide)
        | some written =>
            rw [toList_debugTime] at time
            rcases List.mem_append.mp time with word | rest
            · exact absurd word (by decide)
            · rcases List.mem_cons.mp rest with bracket | rest
              · exact absurd bracket (by decide)
              · rcases List.mem_append.mp rest with digit | close
                · exact absurd (mem_digits digit) (by decide)
                · exact absurd close (by decide)
    · exact absurd (hex _ _ digit) (by decide)

variable (hex : HexDigits)

include hex

/-- No chunk of a sample holds the character that ends it. -/
theorem nul_notMem_chunks {start sampled : World} {names chunks : List String} {flag : Bool}
    (free : ∀ name ∈ names, hasNul name = false)
    (samples : List.Forall₂ (fun name chunk => Sample clock start sampled name chunk flag) names
      chunks) : ∀ chunk ∈ chunks, '\x00' ∉ chunk.toList := by
  induction samples with
  | nil => simp
  | cons sample samples ih =>
      rw [List.forall_mem_cons] at free ⊢
      obtain ⟨disk, bytes, -, rfl⟩ := sample.stamped
      exact ⟨nul_notMem_chunkText hex bytes free.1, ih free.2⟩

/-- One text identifies two file sets of one machine description by the same chunks. -/
theorem chunks_eq {files files' : List String} {text : String}
    (free : ∀ name ∈ files ++ machdep.toList, hasNul name = false)
    (free' : ∀ name ∈ files', hasNul name = false)
    (before : Identifies clock files machdep text flag start sampled)
    (after : Identifies clock files' machdep text flag' parsed last) :
    ∃ chunks machine,
      List.Forall₂ (fun name chunk => Sample clock start sampled name chunk flag) files chunks ∧
      List.Forall₂ (fun name chunk => Sample clock start sampled name chunk true) machdep.toList
        machine ∧
      List.Forall₂ (fun name chunk => Sample clock parsed last name chunk flag') files' chunks ∧
      List.Forall₂ (fun name chunk => Sample clock parsed last name chunk true) machdep.toList
        machine := by
  obtain ⟨chunks, machine, written, named, machines⟩ := before
  obtain ⟨chunks', machine', written', named', machines'⟩ := after
  rw [List.forall_mem_append] at free
  have apart : ∀ chunk ∈ (chunks ++ machine).map String.toList, '\x00' ∉ chunk := by
    rw [List.forall_mem_map, List.forall_mem_append]
    exact ⟨nul_notMem_chunks hex free.1 named, nul_notMem_chunks hex free.2 machines⟩
  have apart' : ∀ chunk ∈ (chunks' ++ machine').map String.toList, '\x00' ∉ chunk := by
    rw [List.forall_mem_map, List.forall_mem_append]
    exact ⟨nul_notMem_chunks hex free' named', nul_notMem_chunks hex free.2 machines'⟩
  have split := congrArg (List.splitOn '\x00') (written.symm.trans written')
  rw [terminated, terminated, splitOn_flatMap_terminated apart, splitOn_flatMap_terminated apart']
    at split
  have texts := List.map_injective_iff.mpr (fun _ _ => String.toList_inj.mp)
    (List.append_cancel_right split)
  obtain ⟨rfl, rfl⟩ := List.append_inj' texts (machines.length_eq.symm.trans machines'.length_eq)
  exact ⟨chunks, machine, named, machines, named', machines'⟩

variable (separate : ∀ name, Function.Injective (clock name))

include separate

/-- The file behind a name is the same at any time between two samples of the same chunk. -/
theorem openFile_sampled {name name' chunk : String} (free : hasNul name = false)
    (free' : hasNul name' = false) (before : Sample clock start sampled name chunk flag)
    (after : Sample clock parsed last name' chunk flag') :
    name = name' ∧ ∃ file, ∀ disk, Between sampled parsed disk → disk.openFile name = file := by
  obtain ⟨first, bytes, ⟨-, firstLe⟩, chunkFirst⟩ := before.stamped
  obtain ⟨final, bytes', ⟨finalGe, -⟩, chunkFinal⟩ := after.stamped
  obtain ⟨rfl, stamps⟩ := stamp_eq_of_chunkText hex free free' (chunkFirst.symm.trans chunkFinal)
  exact ⟨rfl, first.openFile name, fun disk between => openFile_between (separate name)
    (firstLe.trans between.1) (between.2.trans finalGe) stamps⟩

/-- Two reads of one name agree where the samples around both recorded the same chunk. -/
theorem entry_eq {entry entry' : String × Option Bytes} {chunk : String}
    (free : hasNul entry.1 = false) (free' : hasNul entry'.1 = false)
    (before : Sample clock start sampled entry.1 chunk flag)
    (read : ReadBetween sampled parsed entry) (read' : ReadBetween sampled parsed entry')
    (after : Sample clock parsed last entry'.1 chunk flag') : entry = entry' := by
  obtain ⟨names, file, same⟩ := openFile_sampled hex separate free free' before after
  obtain ⟨disk, between, content⟩ := read
  obtain ⟨disk', between', content'⟩ := read'
  refine Prod.ext names ?_
  rw [content, content', ← names, Disk.content, Disk.content, same disk between, same disk' between']

theorem entries_eq {entries entries' : List (String × Option Bytes)} {chunks : List String}
    (free : ∀ entry ∈ entries, hasNul entry.1 = false)
    (free' : ∀ entry ∈ entries', hasNul entry.1 = false)
    (before : List.Forall₂ (fun entry chunk => Sample clock start sampled entry.1 chunk flag)
      entries chunks) (read : ∀ entry ∈ entries, ReadBetween sampled parsed entry)
    (read' : ∀ entry ∈ entries', ReadBetween sampled parsed entry)
    (after : List.Forall₂ (fun entry chunk => Sample clock parsed last entry.1 chunk flag')
      entries' chunks) : entries = entries' := by
  induction before generalizing entries' with
  | nil => cases after with | nil => rfl
  | cons sample samples ih =>
      cases after with
      | cons sample' samples' =>
          rw [List.forall_mem_cons] at free free' read read'
          rw [entry_eq hex separate free.1 free'.1 sample read.1 read'.1 sample',
            ih free.2 free'.2 read.2 read'.2 samples']

theorem machdep_eq {bytes bytes' : Option (Option Bytes)} {machine : List String}
    (free : ∀ name ∈ machdep.toList, hasNul name = false)
    (read : MachdepRead machdep bytes sampled parsed)
    (read' : MachdepRead machdep bytes' sampled parsed)
    (before : List.Forall₂ (fun name chunk => Sample clock start sampled name chunk flag)
      machdep.toList machine)
    (after : List.Forall₂ (fun name chunk => Sample clock parsed last name chunk flag')
      machdep.toList machine) : bytes' = bytes := by
  cases read with
  | none =>
      cases read'
      rfl
  | some read =>
      cases read' with
      | some read' =>
          cases before with
          | cons before _ =>
              cases after with
              | cons after _ =>
                  have free := free _ (List.mem_singleton.mpr rfl)
                  have same := entry_eq hex separate free free before read read' after
                  exact congrArg some (Prod.ext_iff.mp same).2.symm

/-- Two parses between two samples of one text read the same bytes. -/
theorem sources_eq {preprocessor : Preprocessor} {files files' : List String}
    {options : ProjectLoadOptions} {text : String} {boot sources : Sources}
    (free : ∀ name ∈ files ++ options.machdep.toList, hasNul name = false)
    (free' : ∀ name ∈ files', hasNul name = false)
    (before : Identifies clock files options.machdep text flag start sampled)
    (booted : Parsed preprocessor files options boot sampled parsed)
    (rebuilt : Parsed preprocessor files' options sources sampled parsed)
    (after : Identifies clock files' options.machdep text flag' parsed last) :
    sources.named = boot.named ∧ sources.machdep = boot.machdep := by
  obtain ⟨chunks, machine, named, machines, named', machines'⟩ :=
    chunks_eq hex free free' before after
  rw [List.forall_mem_append] at free
  constructor
  · rw [← booted.names, List.forall₂_map_left_iff] at named
    rw [← rebuilt.names, List.forall₂_map_left_iff] at named'
    refine (entries_eq hex separate ?_ ?_ named booted.named rebuilt.named named').symm
    · exact fun entry member => free.1 _ (booted.names ▸ List.mem_map_of_mem member)
    · exact fun entry member => free' _ (rebuilt.names ▸ List.mem_map_of_mem member)
  · exact machdep_eq hex separate free.2 booted.machdep rebuilt.machdep machines machines'

/-- The contents that a parse read hold no directive where a sample between saw none. -/
theorem plain_contents {preprocessor : Preprocessor} {files : List String}
    {options : ProjectLoadOptions} {text other : String}
    {start sampled inside behind parsed last : World} {sources : Sources}
    (free : ∀ name ∈ files ++ options.machdep.toList, hasNul name = false)
    (before : Identifies clock files options.machdep text flag start sampled)
    (plain : Identifies clock files options.machdep other false inside behind)
    (early : sampled.Grows inside) (late : behind.Grows parsed)
    (rebuilt : Parsed preprocessor files options sources sampled parsed)
    (after : Identifies clock files options.machdep text flag' parsed last) :
    ∀ content ∈ sources.named.map Prod.snd,
      ∃ bytes, content = some bytes ∧ hasDirective bytes = false := by
  rw [List.forall_mem_map]
  intro entry member
  have named : entry.1 ∈ files := rebuilt.names ▸ List.mem_map_of_mem member
  have noNul : hasNul entry.1 = false := free _ (List.mem_append_left _ named)
  obtain ⟨chunks, machine, befores, -, afters, -⟩ := chunks_eq hex free
    (fun name member => free name (List.mem_append_left _ member)) before after
  obtain ⟨chunk, sample, sample'⟩ := forall₂_pair befores afters entry.1 named
  obtain ⟨-, file, same⟩ := openFile_sampled hex separate noNul noNul sample sample'
  obtain ⟨chunks', -, -, plains, -⟩ := plain
  obtain ⟨chunk', plain, -⟩ := forall₂_pair plains plains entry.1 named
  obtain ⟨disk, bytes, between, content, undirected⟩ := plain.plain rfl
  obtain ⟨disk', between', content'⟩ := rebuilt.named entry member
  refine ⟨bytes, ?_, undirected⟩
  have here := same disk ⟨early.disk.trans between.1, between.2.trans late.disk⟩
  rw [content', ← content, Disk.content, Disk.content, same disk' between', here]

end

/-- Without a directive and without an option that names other files, a parse reads the named files
and the machine description only. -/
def ReadsOnlyNamed (preprocessor : Preprocessor) : Prop :=
  ∀ (options : ProjectLoadOptions) (contents : List (Option Bytes)),
    options.namesBytesOutsideTheFileSet = false →
    (∀ content ∈ contents, ∃ bytes, content = some bytes ∧ hasDirective bytes = false) →
    preprocessor options contents = []

/-- Where the record is not marked, the tree was built from the bytes of the boot parse. Where it is
marked, the process is poisoned. -/
def RecordAnswers (env : Environment) (state : MainFramaCState) (client : FramaCClient) : Prop :=
  if state.markedUnavailable then state.poisoned = true
  else ∃ ast, client.ast = some ast ∧ ast.sources.named = client.boot.named ∧
    ast.sources.machdep = client.boot.machdep ∧
    (ReadsOnlyNamed env.preprocessor → ast.sources = client.boot)

theorem RecordAnswers.of_marked {env : Environment} {state : MainFramaCState}
    {client : FramaCClient} (marked : state.markedUnavailable = true)
    (poisoned : state.poisoned = true) : RecordAnswers env state client := by
  rw [RecordAnswers, if_pos marked]
  exact poisoned

theorem RecordAnswers.of_built {env : Environment} {state : MainFramaCState}
    {client : FramaCClient} {ast : Ast} (whole : state.markedUnavailable = false)
    (holds : client.ast = some ast) (named : ast.sources.named = client.boot.named)
    (machdep : ast.sources.machdep = client.boot.machdep)
    (all : ReadsOnlyNamed env.preprocessor → ast.sources = client.boot) :
    RecordAnswers env state client := by
  rw [RecordAnswers, if_neg (Bool.eq_false_iff.mp whole)]
  exact ⟨ast, holds, named, machdep, all⟩

theorem needsRespawn_eq_false {state : MainFramaCState} {client : FramaCClient}
    {options : ProjectLoadOptions} {identity : String × Bool}
    (stays : needsRespawn (some (state, client)) options identity = false) :
    state.poisoned = false ∧ state.projectOptions = options ∧ client.poisoned = false ∧
      options.namesBytesOutsideTheFileSet = false ∧ identity.2 = false ∧
      identity.1 = state.astParseSourceDigest := by
  simp only [needsRespawn, parseRecordSurvives, Bool.or_eq_false_iff, bne_eq_false_iff_eq,
    Bool.not_eq_false', Bool.and_eq_true, Bool.not_eq_true', beq_iff_eq] at stays
  obtain ⟨⟨⟨healthy, same⟩, connected⟩, ⟨inside, plain⟩, digest⟩ := stays
  exact ⟨healthy, same, connected, same ▸ inside, plain, digest⟩

/-- A process that starts has no name with the forbidden character. -/
theorem hasNul_of_startProcess {env : Environment} {answers : Answers} {files : List String}
    {options : ProjectLoadOptions} (started : startProcess env answers files options = .ok ()) :
    ∀ name ∈ files ++ options.machdep.toList, hasNul name = false := by
  have words : (mainFramaCArgs env.builtinHeader env.executableInPath env.framaCPath files options
      env.socketPath).any hasNul = false := by
    unfold startProcess at started
    cases logs : answers.logDirectory with
    | error error => rw [logs] at started; cases started
    | ok _ =>
        cases scratch : answers.tmpDirectory with
        | error error => rw [logs, scratch] at started; cases started
        | ok _ =>
            rw [logs, scratch] at started
            have spawned : spawnFramaC (mainFramaCArgs env.builtinHeader env.executableInPath
                env.framaCPath files options env.socketPath) answers.spawned = .ok () := started
            unfold spawnFramaC at spawned
            split_ifs at spawned with nul
            exact Bool.eq_false_iff.mpr nul
  rw [List.any_eq_false] at words
  intro name member
  refine Bool.eq_false_iff.mpr (words name ?_)
  simp only [mainFramaCArgs, projectCliArgs, List.mem_append]
  rcases List.mem_append.mp member with file | machdep
  · exact .inl (.inr file)
  · rw [Option.mem_toList] at machdep
    rw [Option.mem_def.mp machdep]
    simp

theorem bootParseWindow_marked (logLength : Except String Nat) (parsed bootedOn : String) :
    (bootParseWindow logLength parsed bootedOn).2.any ParseRecord.isUnavailable =
      (bootParseWindow logLength parsed bootedOn).2.isSome := by
  unfold bootParseWindow
  split
  · rfl
  · rfl
  · split_ifs <;> rfl

section

variable [Sha256]

/-- The digest of a process belongs to a sample that ended before its boot parse. -/
def Booted (env : Environment) (options : ProjectLoadOptions) (digest : String) (boot : Sources)
    (world : World) : Prop :=
  digest ≠ "" → ∃ files text start sampled, sampled.Grows world ∧ text ∈ world.hashed ∧
    digest = Sha256.hexText text ∧
    (∀ name ∈ files ++ options.machdep.toList, hasNul name = false) ∧
    Identifies env.clock files options.machdep text true start sampled ∧
    Parsed env.preprocessor files options boot sampled world

theorem Booted.mono {env : Environment} {options : ProjectLoadOptions} {digest : String}
    {boot : Sources} {world after : World} (booted : Booted env options digest boot world)
    (grown : world.Grows after) : Booted env options digest boot after := by
  intro nonempty
  obtain ⟨files, text, start, sampled, earlier, hashed, same, free, identifies, parsed⟩ :=
    booted nonempty
  exact ⟨files, text, start, sampled, earlier.trans grown, grown.hashed text hashed, same, free,
    identifies, parsed.mono (.refl _) grown⟩

/-- A record that is marked as absent belongs to a poisoned process. -/
structure RecordKept (env : Environment) (state : MainFramaCState) (client : FramaCClient)
    (world : World) : Prop where
  booted : Booted env state.projectOptions state.astParseSourceDigest client.boot world
  marked : state.markedUnavailable = true → state.poisoned = true

/-- No two texts that were hashed have the same digest. -/
def CollisionFree (world : World) : Prop :=
  ∀ first ∈ world.hashed, ∀ second ∈ world.hashed,
    Sha256.hexText first = Sha256.hexText second → first = second

theorem hexText_ne_empty (text : String) : Sha256.hexText text ≠ "" := by
  intro empty
  have length := Sha256.hexLength text.toUTF8
  rw [show Sha256.hex text.toUTF8 = "" from empty] at length
  cases length

/-- A sample without a sign of a directive names files only. -/
theorem Identifies.free {clock : Clock} {files : List String} {machdep : Option String}
    {text : String} {world after : World}
    (identifies : Identifies clock files machdep text false world after) :
    ∀ name ∈ files, hasNul name = false := by
  obtain ⟨chunks, -, -, samples, -⟩ := identifies
  intro name member
  obtain ⟨chunk, sample, -⟩ := forall₂_pair samples samples name member
  obtain ⟨disk, bytes, -, content, -⟩ := sample.plain rfl
  unfold Disk.content Disk.openFile at content
  split_ifs at content with nul
  · cases content
  · exact Bool.eq_false_iff.mpr nul

theorem reloadInPlace_kept {env : Environment} (answers : Answers) (files : List String)
    (options : ProjectLoadOptions) {state : MainFramaCState} {client : FramaCClient}
    {process : Instance} (kept : RecordKept env state client process.world) :
    process.world.Grows (reloadInPlace env answers files options state client process).2.world ∧
      ∃ state' client', (reloadInPlace env answers files options state client process).2.main =
          some (state', client') ∧
        RecordKept env state' client'
          (reloadInPlace env answers files options state client process).2.world := by
  obtain ⟨parsed, -⟩ := parse_parsed env.preprocessor files options process.world
  have boot (attempt : Except Failure Unit) (ast : Ast) :
      (client.rebuilt attempt answers.leftover ast).boot = client.boot := by
    unfold FramaCClient.rebuilt
    split <;> rfl
  unfold reloadInPlace
  cases attempt : requestAll answers.answers reloadRequests with
  | error error =>
      refine ⟨parsed, _, _, rfl, ⟨?_, fun _ => rfl⟩⟩
      rw [boot]
      exact kept.booted.mono parsed
  | ok _ =>
      obtain ⟨resampled, -⟩ := sourceIdentity_spec env.clock answers.resampled files options.machdep
        (parse env.preprocessor files options process.world).2
      refine ⟨parsed.trans resampled, _, _, rfl, ?_⟩
      simp only
      split_ifs with same
      · exact ⟨kept.booted.mono (parsed.trans resampled), kept.marked⟩
      · exact ⟨kept.booted.mono (parsed.trans resampled), fun _ => rfl⟩

/-- After a rebuild in place the record answers for the new tree, or it is marked. -/
theorem reloadInPlace_answers (hex : HexDigits) {env : Environment}
    (separate : ∀ name, Function.Injective (env.clock name)) {answers : Answers}
    {files : List String} {options : ProjectLoadOptions} {state : MainFramaCState}
    {client : FramaCClient} {world : World}
    (kept : RecordKept env state client world)
    (stays : needsRespawn (some (state, client)) options
      (sourceIdentity env.clock answers.sampled files options.machdep world).1 = false)
    {process after : Instance}
    (sampledWorld : process.world =
      (sourceIdentity env.clock answers.sampled files options.machdep world).2)
    (reloaded : reloadInPlace env answers files options state client process = (.ok (), after))
    (collisionFree : CollisionFree after.world) :
    ∃ state' client', after.main = some (state', client') ∧ RecordAnswers env state' client' := by
  obtain ⟨healthy, sameOptions, -, inside, plain, digest⟩ := needsRespawn_eq_false stays
  unfold reloadInPlace at reloaded
  cases attempt : requestAll answers.answers reloadRequests with
  | error error =>
      rw [attempt] at reloaded
      cases reloaded
  | ok _ =>
      simp only [attempt, Prod.mk.injEq, true_and] at reloaded
      subst reloaded
      refine ⟨_, _, rfl, ?_⟩
      split_ifs with same
      · have whole : state.markedUnavailable = false := by
          cases marked : state.markedUnavailable with
          | false => rfl
          | true => rw [kept.marked marked] at healthy; cases healthy
        obtain ⟨grown, first⟩ :=
          sourceIdentity_spec env.clock answers.sampled files options.machdep world
        obtain ⟨resampled, second⟩ :=
          sourceIdentity_spec env.clock answers.resampled files options.machdep
            (parse env.preprocessor files options process.world).2
        obtain ⟨rebuilding, parsed⟩ := parse_parsed env.preprocessor files options process.world
        rw [← sampledWorld] at grown
        split_ifs at first with finished
        · obtain ⟨text, -, named, identifies⟩ := first
          rw [plain, ← sampledWorld] at identifies
          have stored : state.astParseSourceDigest ≠ "" := by
            rw [← digest, named]
            exact hexText_ne_empty text
          split_ifs at second with refinished
          · obtain ⟨retext, rehashed, renamed, reidentifies⟩ := second
            obtain ⟨bootFiles, bootText, start, sampled, earlier, hashed, bootNamed, free,
              bootIdentifies, booted⟩ := kept.booted stored
            obtain rfl : bootText = retext := by
              refine collisionFree _ ?_ _ rehashed ?_
              · exact resampled.hashed _ (rebuilding.hashed _ (grown.hashed _ hashed))
              · rw [← bootNamed, ← same, renamed]
            rw [sameOptions] at free bootIdentifies booted
            have early := earlier.trans grown
            have between := booted.mono (.refl _) (grown.trans rebuilding)
            have between' := parsed.mono early (.refl _)
            obtain ⟨sameNamed, sameMachdep⟩ := sources_eq hex separate free identifies.free
              bootIdentifies between between' reidentifies
            obtain rfl : bootFiles = files := by
              rw [← booted.names, ← parsed.names, sameNamed]
            refine .of_built whole rfl sameNamed sameMachdep fun onlyNamed => ?_
            have contents := plain_contents hex separate free bootIdentifies identifies earlier
              rebuilding between' reidentifies
            have nothing := onlyNamed options _ inside contents
            have noIncluded := parsed.included.trans nothing
            have noBootIncluded := booted.included
            rw [← sameNamed, nothing] at noBootIncluded
            rw [List.map_eq_nil_iff] at noIncluded noBootIncluded
            exact Sources.ext sameNamed sameMachdep (noIncluded.trans noBootIncluded.symm)
          · rw [second] at same
            exact absurd same.symm stored
        · rw [first] at plain
          cases plain
      · exact .of_marked rfl rfl

/-- A new process has a record of its own tree, or its record is marked. -/
theorem spawnMain_kept (env : Environment) (answers : Answers) (files : List String)
    (options : ProjectLoadOptions) {world : World} {process : Instance}
    (sampledWorld : process.world =
      (sourceIdentity env.clock answers.sampled files options.machdep world).2) :
    process.world.Grows
        (spawnMain env answers files options
          (sourceIdentity env.clock answers.sampled files options.machdep world).1 process).2.world ∧
      match spawnMain env answers files options
          (sourceIdentity env.clock answers.sampled files options.machdep world).1 process with
      | (.error _, after) => after.main = process.main
      | (.ok _, after) => ∃ state client, after.main = some (state, client) ∧
          RecordKept env state client after.world ∧ RecordAnswers env state client := by
  obtain ⟨grown, identified⟩ :=
    sourceIdentity_spec env.clock answers.sampled files options.machdep world
  obtain ⟨booting, parsed⟩ := parse_parsed env.preprocessor files options process.world
  obtain ⟨resampled, -⟩ := sourceIdentity_spec env.clock answers.resampled files options.machdep
    (parse env.preprocessor files options process.world).2
  unfold spawnMain
  cases started : startProcess env answers files options with
  | error error => exact ⟨.refl _, rfl⟩
  | ok _ =>
      cases answers.connected with
      | error reason => exact ⟨booting, rfl⟩
      | ok entries =>
          refine ⟨booting.trans resampled, _, _, rfl, ⟨fun nonempty => ?_, ?_⟩, ?_⟩
          · split_ifs at identified with finished
            · obtain ⟨text, hashed, named, identifies⟩ := identified
              rw [← sampledWorld] at hashed identifies
              exact ⟨files, text, world, process.world, booting.trans resampled,
                (booting.trans resampled).hashed text hashed, named,
                hasNul_of_startProcess started,
                (identifies.weaken), parsed.mono (.refl _) resampled⟩
            · rw [identified] at nonempty
              exact absurd rfl nonempty
          · exact fun marked => (bootParseWindow_marked ..).symm.trans marked
          · unfold RecordAnswers
            split_ifs with marked
            · exact (bootParseWindow_marked ..).symm.trans marked
            · exact ⟨_, rfl, rfl, rfl, fun _ => rfl⟩

end

end FramaCMcp.MainProcess

namespace FramaCMcp.Session

open Receipt LoadCommand MainProcess

section

variable [Sha256] {env : Environment} {server : Server}

/-- The record of the process is kept as its boot parse left it. -/
def ServerKept (env : Environment) (server : Server) : Prop :=
  ∀ state client, server.process.main = some (state, client) →
    RecordKept env state client server.process.world

/-- What holds of the records after a call. -/
structure Ensured (env : Environment) (result : Except Failure Unit) (after : Server) : Prop where
  kept : ServerKept env after
  answers : HexDigits → (∀ name, Function.Injective (env.clock name)) →
    CollisionFree after.process.world → result = .ok () → ∃ state client,
      after.process.main = some (state, client) ∧ RecordAnswers env state client

theorem ensured_respawnMain (answers : Answers) (files : List String)
    (options : ProjectLoadOptions) {world : World} (kept : ServerKept env server)
    (sampledWorld : server.process.world =
      (sourceIdentity env.clock answers.sampled files options.machdep world).2) :
    Ensured env
      (respawnMain env answers files options
        (sourceIdentity env.clock answers.sampled files options.machdep world).1 server).1
      (respawnMain env answers files options
        (sourceIdentity env.clock answers.sampled files options.machdep world).1 server).2 := by
  obtain ⟨grown, spawned⟩ :=
    spawnMain_kept env answers files options sampledWorld
  unfold respawnMain
  rcases result : spawnMain env answers files options
    (sourceIdentity env.clock answers.sampled files options.machdep world).1 server.process with
    ⟨error | entries, after⟩
  · rw [result] at grown spawned
    refine ⟨fun state client holds => ?_, fun _ _ _ ok => by cases ok⟩
    have before := kept state client (spawned ▸ holds)
    exact ⟨before.booted.mono grown, before.marked⟩
  · rw [result] at spawned
    obtain ⟨state, client, holds, recordKept, answered⟩ := spawned
    refine ⟨fun state' client' same => ?_, fun _ _ _ _ => ⟨state, client, holds, answered⟩⟩
    cases holds.symm.trans same
    exact recordKept

theorem ensured_reloadMain (answers : Answers) (files : List String)
    (options : ProjectLoadOptions) {world : World} (kept : ServerKept env server)
    (started : ∀ state client, server.process.main = some (state, client) →
      RecordKept env state client world)
    (sampledWorld : server.process.world =
      (sourceIdentity env.clock answers.sampled files options.machdep world).2)
    (stays : needsRespawn server.process.main options
      (sourceIdentity env.clock answers.sampled files options.machdep world).1 = false) :
    Ensured env (reloadMain env answers files options server).1
      (reloadMain env answers files options server).2 := by
  unfold reloadMain
  cases main : server.process.main with
  | none =>
      rw [main] at stays
      cases stays
  | some pair =>
      obtain ⟨state, client⟩ := pair
      rw [main] at stays
      obtain ⟨grown, state', client', holds, recordKept⟩ :=
        reloadInPlace_kept answers files options (kept state client main)
      refine ⟨fun state'' client'' same => ?_, fun hex separate free ok => ?_⟩
      · cases holds.symm.trans same
        exact recordKept
      · exact reloadInPlace_answers hex separate (started state client main) stays sampledWorld
          (Prod.ext ok rfl) free

theorem ensured_ensureMainSpawned (answers : Answers) (files : List String)
    (options : ProjectLoadOptions) (kept : ServerKept env server) :
    Ensured env (ensureMainSpawned env answers files options server).1
      (ensureMainSpawned env answers files options server).2 := by
  have grown := (sourceIdentity_spec env.clock answers.sampled files options.machdep
    server.process.world).1
  have sampledKept : ServerKept env { server with process := { server.process with
      world := (sourceIdentity env.clock answers.sampled files options.machdep
        server.process.world).2 } } := by
    intro state client holds
    have before := kept state client holds
    exact ⟨before.booted.mono grown, before.marked⟩
  unfold ensureMainSpawned
  simp only
  split_ifs with must
  · exact ensured_respawnMain answers files options sampledKept rfl
  · exact ensured_reloadMain answers files options sampledKept kept rfl (Bool.eq_false_iff.mpr must)

omit [Sha256] in
/-- A record that is read from the log is not marked. -/
theorem markedUnavailable_cached (state : MainFramaCState) (log : Bytes) :
    { state with
      astReloadDiagnostics := state.astReloadDiagnostics.or (some (.categories log)) }.markedUnavailable =
      state.markedUnavailable := by
  unfold MainFramaCState.markedUnavailable
  cases state.astReloadDiagnostics <;> rfl

theorem serverKept_cacheDiagnostics (bootLog : Except String Bytes) (kept : ServerKept env server) :
    ServerKept env { server with process := cacheDiagnostics bootLog server.process } := by
  unfold cacheDiagnostics
  cases main : server.process.main with
  | none => exact kept
  | some pair =>
      cases bootLog with
      | error error => exact kept
      | ok log =>
          intro state client holds
          cases holds
          have before := kept pair.1 pair.2 main
          exact ⟨before.booted, fun marked =>
            before.marked ((markedUnavailable_cached ..).symm.trans marked)⟩

theorem serverKept_refresh (call : ReloadCall) (kept : ServerKept env server) :
    ServerKept env (refresh call server).2 := by
  unfold refresh
  split
  · exact kept
  · split
    · exact kept
    · split <;> exact serverKept_cacheDiagnostics call.bootLog kept

theorem serverKept_reloadProject (call : ReloadCall) (kept : ServerKept env server) :
    ServerKept env (reloadProject env call server).2 := by
  unfold reloadProject
  split
  · exact kept
  · rename_i files options admission
    have ensured := (ensured_ensureMainSpawned call.answers files options kept).kept
    simp only
    split
    · exact ensured
    · exact serverKept_refresh call ensured

/-- The record is kept in every state that a run reaches. -/
theorem serverKept_run (env : Environment) (world : World) (steps : List Step) :
    ServerKept env (run env (Server.initial world) steps) := by
  induction steps using List.reverseRecOn with
  | nil =>
      intro state client holds
      cases holds
  | append_singleton steps last ih =>
      rw [run, List.foldl_append]
      cases last with
      | reload call => exact serverKept_reloadProject call ih
      | tool tool =>
          change ServerKept env (tool.run _)
          unfold Tool.run
          split <;> exact ih
      | transportPoisoned =>
          intro state client holds
          obtain ⟨⟨state', client'⟩, before, same⟩ := Option.map_eq_some_iff.mp holds
          cases same
          exact ⟨(ih state' client' before).booted, (ih state' client' before).marked⟩

end

/-- The file is loaded and then reloaded in place. -/
def reloadedExample : Server :=
  (@ensureMainSpawned .zeros exampleEnvironment exampleLoad.answers ["a.c"] {}
    (@run .zeros exampleEnvironment (Server.initial exampleWorld)
      [.reload exampleLoad])).2

theorem hexDigits_zero : @HexDigits (.ofTable [] rfl) := by
  intro bytes digit member
  have zeros : digit ∈ (String.ofList (List.replicate 64 '0')).toList := member
  rw [String.toList_ofList] at zeros
  rw [(List.mem_replicate.mp zeros).2]
  decide

end FramaCMcp.Session
