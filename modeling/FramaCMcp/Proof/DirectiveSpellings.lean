/-
This file shows which directives the scan of a source overlooks.
-/

import FramaCMcp.Construction.SourceIdentity
import FramaCMcp.Foundation.TranslationPhases

namespace FramaCMcp.MainProcess

open TranslationPhases (Spelled directives)

section Scan

/-- A spelling ends here with the two bytes before it. -/
def endsSpelling (byte : UInt8) (previous : UInt8 × UInt8) : Prop :=
  byte = 35 ∨ (byte = 58 ∧ previous.2 = 37) ∨ (byte = 61 ∧ previous.2 = 63 ∧ previous.1 = 63)

theorem startsADirective_cons (byte : UInt8) (rest : Bytes) (previous : UInt8 × UInt8) :
    startsADirective (byte :: rest) previous = true ↔
      endsSpelling byte previous ∨ startsADirective rest (previous.2, byte) = true := by
  rw [startsADirective, endsSpelling]
  split_ifs with ends
  · exact ⟨fun _ => Or.inl ends, fun _ => rfl⟩
  · exact ⟨Or.inr, fun either => either.resolve_left ends⟩

/-- A scan over two chunks is the scan over both together. -/
theorem scanChunk_append (chunk rest : Bytes) (previous : UInt8 × UInt8) :
    startsADirective (chunk ++ rest) previous =
      ((scanChunk chunk previous).1 || startsADirective rest (scanChunk chunk previous).2) := by
  induction chunk generalizing previous with
  | nil => rfl
  | cons byte chunk ih =>
      rw [List.cons_append, startsADirective, scanChunk]
      split_ifs
      · rfl
      · exact ih _

/-- These are the two bytes before the next one. -/
def lastTwo (previous : UInt8 × UInt8) (bytes : Bytes) : UInt8 × UInt8 :=
  bytes.foldl (fun previous byte => (previous.2, byte)) previous

theorem lastTwo_snoc (previous : UInt8 × UInt8) (bytes : Bytes) (byte : UInt8) :
    lastTwo previous (bytes ++ [byte]) = ((lastTwo previous bytes).2, byte) := by
  rw [lastTwo, List.foldl_append]
  rfl

theorem startsADirective_iff (bytes : Bytes) (previous : UInt8 × UInt8) :
    startsADirective bytes previous = true ↔
      ∃ before byte after, bytes = before ++ byte :: after ∧
        endsSpelling byte (lastTwo previous before) := by
  induction bytes generalizing previous with
  | nil =>
      refine ⟨fun found => (by cases found), fun ⟨before, byte, after, same, _⟩ => ?_⟩
      exact absurd same (List.append_ne_nil_of_right_ne_nil before (List.cons_ne_nil byte after)).symm
  | cons head rest ih =>
      rw [startsADirective_cons, ih]
      constructor
      · rintro (ends | ⟨before, byte, after, rfl, ends⟩)
        · exact ⟨[], head, rest, rfl, ends⟩
        · exact ⟨head :: before, byte, after, rfl, ends⟩
      · rintro ⟨before, byte, after, same, ends⟩
        cases before with
        | nil =>
            cases same
            exact Or.inl ends
        | cons first before =>
            cases same
            exact Or.inr ⟨before, byte, after, rfl, ends⟩

/-- A nonzero last byte stands at the end. -/
theorem snoc_of_lastTwo {bytes : Bytes} {byte : UInt8} (nonzero : byte ≠ 0)
    (last : (lastTwo (0, 0) bytes).2 = byte) : ∃ before, bytes = before ++ [byte] := by
  induction bytes using List.reverseRec with
  | nil => exact absurd last.symm nonzero
  | append_singleton before final _ =>
      rw [lastTwo_snoc] at last
      exact ⟨before, by rw [← last]⟩

/-- The flag is set exactly where a spelling stands unbroken. -/
theorem hasDirective_iff (bytes : Bytes) : hasDirective bytes = true ↔ Spelled bytes := by
  rw [hasDirective, startsADirective_iff]
  constructor
  · rintro ⟨before, byte, after, rfl, rfl | ⟨rfl, percent⟩ | ⟨rfl, second, first⟩⟩
    · exact Or.inl ⟨before, after, by simp⟩
    · obtain ⟨earlier, rfl⟩ := snoc_of_lastTwo (by decide) percent
      exact Or.inr (Or.inl ⟨earlier, after, by simp⟩)
    · obtain ⟨earlier, rfl⟩ := snoc_of_lastTwo (by decide) second
      rw [lastTwo_snoc] at first
      obtain ⟨start, rfl⟩ := snoc_of_lastTwo (by decide) first
      exact Or.inr (Or.inr ⟨start, after, by simp⟩)
  · rintro (⟨before, after, rfl⟩ | ⟨before, after, rfl⟩ | ⟨before, after, rfl⟩)
    · exact ⟨before, 35, after, by simp, Or.inl rfl⟩
    · refine ⟨before ++ [37], 58, after, by simp, Or.inr (Or.inl ⟨rfl, ?_⟩)⟩
      rw [lastTwo_snoc]
    · refine ⟨before ++ [63] ++ [63], 61, after, by simp, Or.inr (Or.inr ⟨rfl, ?_, ?_⟩)⟩
      · rw [lastTwo_snoc]
      · rw [lastTwo_snoc, lastTwo_snoc]

end Scan

section Reader

/-- The chunks before the first empty one are the stream. -/
def stream (chunks : List Bytes) : Bytes := (chunks.takeWhile fun chunk => chunk != []).flatten

variable [Sha256]

theorem hashReads_ok (chunks : List Bytes) (hashing : Hashing) :
    hashReads hashing (chunks.map .ok) =
      .ok (digestOf (hashing.hashed ++ stream chunks),
        hashing.mayBeADirective || startsADirective (stream chunks) hashing.previous) := by
  induction chunks generalizing hashing with
  | nil => simp [hashReads, stream, startsADirective]
  | cons chunk rest ih =>
      rw [List.map_cons, hashReads]
      split_ifs with empty
      · simp [stream, empty, startsADirective]
      · have split : stream (chunk :: rest) = chunk ++ stream rest := by
          simp [stream, empty]
        rw [ih, split, scanChunk_append, Hashing.chunk, List.append_assoc]
        cases hashing.mayBeADirective <;> rfl

/-- The digest and the flag depend on the stream only, whatever its chunks are. The flag is set for
each source with a directive exactly where a spelling stands unbroken or no directive opens with a
digraph that a spliced line splits. -/
theorem sha256HexOfReader_directive_iff (chunks : List Bytes) :
    sha256HexOfReader (chunks.map .ok) =
        .ok (digestOf (stream chunks), hasDirective (stream chunks)) ∧
      ((directives (stream chunks) ≠ [] → hasDirective (stream chunks) = true) ↔
        Spelled (stream chunks) ∨ .digraph true ∉ directives (stream chunks)) := by
  refine ⟨by rw [sha256HexOfReader, hashReads_ok]; rfl, fun complete => ?_, fun either found => ?_⟩
  · by_cases empty : directives (stream chunks) = []
    · exact Or.inr (empty ▸ List.not_mem_nil)
    · exact Or.inl ((hasDirective_iff _).mp (complete empty))
  · rw [hasDirective_iff]
    rcases either with spelled | whole
    · exact spelled
    · obtain ⟨opener, opens⟩ := List.exists_mem_of_ne_nil _ found
      exact TranslationPhases.spelled_of_directives opens fun same => whole (same ▸ opens)

end Reader

/-- The directive of this source opens with a digraph around a spliced line. -/
theorem not_sha256HexOfReader_directive : ¬ ∀ [Sha256] (chunks : List Bytes),
    directives (stream chunks) ≠ [] →
      ∃ digest, sha256HexOfReader (chunks.map .ok) = .ok (digest, true) := by
  intro holds
  let _ : Sha256 := .zeros
  obtain ⟨digest, same⟩ := holds [[37, 92, 10, 58, 100, 10]] (by decide)
  rw [sha256HexOfReader, hashReads_ok] at same
  have flag : hasDirective [37, 92, 10, 58, 100, 10] = true :=
    congrArg Prod.snd (Except.ok.inj same)
  exact absurd flag (by decide)

end FramaCMcp.MainProcess
