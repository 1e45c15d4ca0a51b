import EpisodicReplay.Proofs.Log
import EpisodicReplay.Proofs.Text.Lines
import Mathlib.Data.List.Induction

/-! A log consists of whole lines: those it began with and all that were added, or the newest of them. -/

namespace EpisodicReplay.Log
open Text (Ended encode endedLines)

/-- A line with the limit that the log has when it is added. -/
structure Addition where
  line : String
  limit : Nat

def addAll (path : String) (additions : List Addition) : FileAction Unit :=
  additions.forM fun addition => append path addition.line addition.limit

/-- What a log holds after additions. -/
def contentAfter (before : ByteArray) (additions : List Addition) : ByteArray :=
  additions.foldl (fun content addition => kept addition.limit content ++ written [addition.line]) before

/-- The addition with a number finds the log beyond its limit. -/
def Oversized (before : ByteArray) (additions : List Addition) (number : Nat) : Prop :=
  ∃ addition, additions[number]? = some addition ∧
    addition.limit < (contentAfter before (additions.take number)).size

/-- A log holds what it began with and then some lines, each of them whole. -/
structure Holds (content start : ByteArray) (lines : List String) : Prop where
  bytes : content = start ++ written lines
  ended : Ended content
  lines : endedLines content = endedLines start ++ lines.map fun line => encode line.toList

/-- A log holds what it began with and all that was added or, if it was found beyond the limit of an addition, the lines
from the last such addition on. -/
inductive HoldsNewest (before : ByteArray) (additions : List Addition) (content : ByteArray) : Prop
  | all : (∀ number, ¬Oversized before additions number) → Holds content before (additions.map Addition.line) →
    HoldsNewest before additions content
  | since (number : Nat) : number < additions.length → Oversized before additions number →
    (∀ further, number < further → ¬Oversized before additions further) →
    Holds content .empty ((additions.drop number).map Addition.line) → HoldsNewest before additions content

section content
variable {before start : ByteArray} {additions : List Addition} {addition : Addition} {lines : List String}

theorem contentAfter_concat (before : ByteArray) (additions : List Addition) (addition : Addition) :
    contentAfter before (additions ++ [addition]) =
      kept addition.limit (contentAfter before additions) ++ written [addition.line] :=
  List.foldl_append

theorem size_kept_le (limit : Nat) (content : ByteArray) : (kept limit content).size ≤ limit := by
  unfold kept
  split
  case isTrue => exact Nat.zero_le limit
  case isFalse small => exact Nat.not_lt.mp small

theorem size_written_singleton (line : String) : (written [line]).size = line.utf8ByteSize + 1 := by
  rw [written_singleton, String.toUTF8_eq_toByteArray, String.toByteArray_append, ByteArray.size_append]
  rfl

theorem holds_written (ended : Ended start) (single : ∀ line ∈ lines, '\n' ∉ line.toList) :
    Holds (start ++ written lines) start lines := by
  induction lines using List.reverseRecOn with
  | nil =>
      rw [written_nil, ByteArray.append_empty]
      exact ⟨by simp, ended, by simp⟩
  | append_singleton lines line inductionHypothesis =>
      have holds := inductionHypothesis fun other member => single other (List.mem_append_left _ member)
      have added := Text.endedLines_line (single line (by simp))
      rw [written_append, written_singleton, ← ByteArray.append_assoc]
      refine ⟨by rw [written_append, written_singleton, ByteArray.append_assoc],
        holds.ended.append (Text.ended_line line), ?_⟩
      rw [Text.endedLines_append holds.ended, holds.lines, added, List.map_append, List.append_assoc]
      rfl

theorem Holds.getLast?_eq {content : ByteArray} {line : String} (holds : Holds content start (lines ++ [line])) :
    (endedLines content).getLast? = some (encode line.toList) := by
  rw [holds.lines, List.map_append, ← List.append_assoc]
  exact List.getLast?_concat

theorem oversized_length_iff : Oversized before (additions ++ [addition]) additions.length ↔
    addition.limit < (contentAfter before additions).size := by
  simp [Oversized]

theorem not_oversized_of_le {number : Nat} (beyond : additions.length ≤ number) :
    ¬Oversized before additions number := by
  rintro ⟨addition, found, -⟩
  rw [List.getElem?_eq_none beyond] at found
  cases found

/-- An addition that finds room does not change which of them did not. -/
theorem oversized_concat_iff (room : ¬addition.limit < (contentAfter before additions).size) {number : Nat} :
    Oversized before (additions ++ [addition]) number ↔ Oversized before additions number := by
  rcases Nat.lt_trichotomy number additions.length with inside | rfl | beyond
  · rw [Oversized, Oversized, List.getElem?_append_left inside, List.take_append_of_le_length (Nat.le_of_lt inside)]
  · exact iff_of_false (oversized_length_iff.not.mpr room) (not_oversized_of_le (Nat.le_refl _))
  · refine iff_of_false (not_oversized_of_le ?_) (not_oversized_of_le (Nat.le_of_lt beyond))
    rw [List.length_append]
    exact beyond

/-- Only the last addition that found the log beyond its limit matters. -/
theorem contentAfter_eq (before : ByteArray) (additions : List Addition) :
    ((∀ number, ¬Oversized before additions number) ∧
      contentAfter before additions = before ++ written (additions.map Addition.line)) ∨
    ∃ number < additions.length, Oversized before additions number ∧
      (∀ later, number < later → ¬Oversized before additions later) ∧
      contentAfter before additions = written ((additions.drop number).map Addition.line) := by
  induction additions using List.reverseRecOn with
  | nil =>
      refine .inl ⟨fun number => not_oversized_of_le (Nat.zero_le number), ?_⟩
      rw [List.map_nil, written_nil, ByteArray.append_empty]
      rfl
  | append_singleton front addition inductionHypothesis =>
      rw [contentAfter_concat]
      by_cases grown : addition.limit < (contentAfter before front).size
      · refine .inr ⟨front.length, by simp, oversized_length_iff.mpr grown, fun later after => ?_, ?_⟩
        · apply not_oversized_of_le
          rw [List.length_append]
          exact after
        · rw [kept, if_pos grown, ByteArray.empty_append, List.drop_left]
          rfl
      · simp only [oversized_concat_iff grown]
        rw [kept, if_neg grown]
        rcases inductionHypothesis with ⟨never, content⟩ | ⟨number, inside, oversized, newest, content⟩
        · refine .inl ⟨never, ?_⟩
          rw [content, List.map_append, written_append, ByteArray.append_assoc]
          rfl
        · refine .inr ⟨number, ?_, oversized, newest, ?_⟩
          · rw [List.length_append]
            exact Nat.lt_add_right 1 inside
          · rw [content, List.drop_append_of_le_length (Nat.le_of_lt inside), List.map_append, written_append]
            rfl

theorem holdsNewest_contentAfter (ended : Ended before)
    (single : ∀ addition ∈ additions, '\n' ∉ addition.line.toList) :
    HoldsNewest before additions (contentAfter before additions) := by
  have lines {some : List Addition} (part : some ⊆ additions) :
      ∀ line ∈ some.map Addition.line, '\n' ∉ line.toList :=
    List.forall_mem_map.mpr fun addition member => single addition (part member)
  rcases contentAfter_eq before additions with ⟨never, content⟩ | ⟨number, inside, oversized, newest, content⟩
  · refine .all never ?_
    rw [content]
    exact holds_written ended (lines (List.Subset.refl additions))
  · refine .since number inside oversized newest ?_
    rw [content, ← @ByteArray.empty_append (written _)]
    exact holds_written (.inl rfl) (lines (List.drop_subset number additions))

/-- The newest line is never given up. -/
theorem HoldsNewest.getLast?_eq {content : ByteArray} (holds : HoldsNewest before (additions ++ [addition]) content) :
    (endedLines content).getLast? = some (encode addition.line.toList) := by
  cases holds with
  | all _ held =>
      rw [List.map_append] at held
      exact held.getLast?_eq
  | since number inside _ _ held =>
      rw [List.length_append] at inside
      rw [List.drop_append_of_le_length (Nat.le_of_lt_succ inside), List.map_append] at held
      exact held.getLast?_eq

end content

section run
variable {path : String} {files : Files} {place : Location}

theorem run_addAll (fileAt : files.FileAt path place) (noDirectory : files.entry? place ≠ some .directory)
    (additions : List Addition) :
    ∃ later, (addAll path additions).run.run files = (.ok (), later) ∧ files.SameBut later place ∧
      later.entry? place ≠ some .directory ∧
      later.contentAt place = contentAfter (files.contentAt place) additions := by
  obtain ⟨later, run, same, stillFile, added⟩ :=
    @run_forM_append_limits path files place Addition additions Addition.line Addition.limit fileAt noDirectory
  refine ⟨later, run, same, stillFile, ?_⟩
  change contentOf (later.entry? place) = contentAfter (contentOf (files.entry? place)) additions
  rw [added, extendedBy, contentAfter]
  refine (List.foldl_hom contentOf fun entry addition => ?_).symm
  rw [written_singleton]
  rfl

/-- A log that consists of whole lines keeps doing so, whatever is added under whatever limits: it holds all that it
ever held, or what was added since it was last found beyond the limit of an addition. It ends with the newest line and
is no larger than the limit and that line together. Content is given up just where trimming tells so, and trimming again
finds nothing to do. -/
theorem keeps_newest (located : files.locateFile path = .ok place) (whole : Ended (files.contentAt place))
    (additions : List Addition) (last : Addition)
    (single : ∀ addition ∈ additions ++ [last], '\n' ∉ addition.line.toList) :
    let before := files.contentAt place
    let all := additions ++ [last]
    ∃ earlier later trimmed : Files,
      let content := earlier.contentAt place
      let extended := later.contentAt place
      (addAll path additions).run.run files = (.ok (), earlier) ∧ files.SameBut earlier place ∧
      (append path last.line last.limit).run.run earlier = (.ok (), later) ∧ earlier.SameBut later place ∧
      later.entry? place = some (.file extended) ∧
      HoldsNewest before all extended ∧
      (endedLines extended).getLast? = some (encode last.line.toList) ∧
      extended.size ≤ last.limit + last.line.utf8ByteSize + 1 ∧
      (Oversized before all additions.length ↔ last.limit < content.size) ∧
      (last.limit < content.size → extended = written [last.line]) ∧
      (extended = content ++ written [last.line] ↔ content.size ≤ last.limit) ∧
      (trim path last.limit).run.run earlier = (.ok (decide (last.limit < content.size)), trimmed) ∧
      earlier.SameBut trimmed place ∧ trimmed.contentAt place = kept last.limit content ∧
      (trim path last.limit).run.run trimmed = (.ok false, trimmed) := by
  intro before all
  obtain ⟨fileAt, noDirectory⟩ := Files.fileAt_of_locateFile located
  obtain ⟨earlier, addedAll, same, stillFile, content⟩ := run_addAll fileAt noDirectory additions
  have earlierAt := fileAt.of_sameBut same noDirectory
  obtain ⟨later, added, sameLater, entry⟩ := @append_file path last.line last.limit earlier place earlierAt stillFile
  obtain ⟨trimmed, trimming, sameTrimmed, trimmedFile, left⟩ :=
    @trim_file path last.limit earlier place earlierAt stillFile
  have extended : later.contentAt place = kept last.limit (earlier.contentAt place) ++ written [last.line] := by
    rw [Files.contentAt, entry, written_singleton]
  have holds : HoldsNewest before all (later.contentAt place) := by
    rw [extended, content, ← contentAfter_concat]
    exact holdsNewest_contentAfter whole single
  refine ⟨earlier, later, trimmed, addedAll, same, added, sameLater, ?_, holds, holds.getLast?_eq, ?_, ?_, ?_, ?_,
    trimming, sameTrimmed, left, ?_⟩
  · rw [extended, entry, written_singleton]
  · rw [extended, ByteArray.size_append, size_written_singleton]
    have := size_kept_le last.limit (earlier.contentAt place)
    omega
  · rw [content]
    exact oversized_length_iff
  · intro grown
    rw [extended, kept, if_pos grown, ByteArray.empty_append]
  · constructor
    · intro whole
      by_contra grown
      rw [extended, kept, if_pos (Nat.lt_of_not_le grown), ByteArray.empty_append] at whole
      have sizes := congrArg ByteArray.size whole
      rw [ByteArray.size_append] at sizes
      omega
    · intro room
      rw [extended, kept, if_neg (Nat.not_lt.mpr room)]
  · apply run_trim_of_le (earlierAt.of_sameBut sameTrimmed stillFile) trimmedFile
    rw [left]
    exact size_kept_le ..

end run

/-- A line too long for its own log is there until the next one is added. -/
theorem keeps_newest_small :
    let path := "log.jsonl"
    let additions : List Addition := [⟨"aaaaaaaaaa", 8⟩, ⟨"b", 8⟩]
    Files.empty.locateFile path = .ok [path] ∧ Ended (Files.empty.contentAt [path]) ∧
      (∀ addition ∈ additions ++ [⟨"cc", 2⟩], '\n' ∉ addition.line.toList) ∧
      ∃ earlier later : Files, (addAll path additions).run.run .empty = (.ok (), earlier) ∧
        (append path "cc" 2).run.run earlier = (.ok (), later) ∧
        HoldsNewest (Files.empty.contentAt [path]) (additions ++ [⟨"cc", 2⟩]) (later.contentAt [path]) ∧
        later.contentAt [path] = "b\ncc\n".toUTF8 ∧ (later.contentAt [path]).size = 2 + "cc".utf8ByteSize + 1 := by
  intro path additions
  have located : Files.empty.locateFile path = .ok [path] := by decide +kernel
  have whole : Ended (Files.empty.contentAt [path]) := .inl (by decide +kernel)
  have single : ∀ addition ∈ additions ++ [⟨"cc", 2⟩], '\n' ∉ addition.line.toList := by decide +kernel
  obtain ⟨earlier, later, -, addedAll, -, added, -, -, holds, -⟩ :=
    keeps_newest located whole additions ⟨"cc", 2⟩ single
  have content : later.contentAt [path] = "b\ncc\n".toUTF8 := by
    obtain rfl : ((addAll path additions).run.run .empty).2 = earlier := congrArg Prod.snd addedAll
    obtain rfl := congrArg Prod.snd added
    decide +kernel
  refine ⟨located, whole, single, earlier, later, addedAll, added, holds, content, ?_⟩
  rw [content]
  decide +kernel

end EpisodicReplay.Log
