import Symm.Ui.PathsListing

/-!
# The keys of the path store

A key `model/paths/<t1>/.../<tn>/<a>.bin` names the tokens of a path and the action at
its end. `decodeKey` reads both back, and the text without `model/paths/` is the place
of the key in the trie, segment for segment.

- `join`, `parts_join`: segments joined by slashes, and cut again;
- `PathKey`: the tokens and the action of such a key;
- `decodeKey_text`: what the trie makes of it.

A token is not empty, has no slash in it, and does not end as an action file does; an
action is a lower-case name. Both carry this as fields, so that a key is a list of
segments with a file at its end, and nothing has to be asked of it later.

`decodeKey` splits at the slashes, drops the extension and puts the action in capitals,
and the trie names the file in small letters again. That the two cancel is a fact about
lower-case ASCII names (`toLower_toUpper_char`), and the one place where the alphabet of
an action matters.
-/

namespace Symm.Ui

open Symm.Lib

/-- `segments.join("/")`. -/
def join (segments : List String) : String := "/".intercalate segments

theorem join_nil : join [] = "" := String.intercalate_nil

theorem join_singleton (segment : String) : join [segment] = segment := String.intercalate_singleton

theorem join_cons_cons (segment next : String) (rest : List String) :
    join (segment :: next :: rest) = segment ++ "/" ++ join (next :: rest) :=
  String.intercalate_cons_cons

/-- Joining one more segment adds a slash and the segment. -/
theorem join_concat {segments : List String} (h : segments ≠ []) (last : String) :
    join (segments ++ [last]) = join segments ++ "/" ++ last := by
  induction segments with
  | nil => exact absurd rfl h
  | cons segment rest ih =>
    cases rest with
    | nil =>
      rw [join_singleton]
      exact (join_cons_cons segment last []).trans (by rw [join_singleton])
    | cons next rest =>
      have hrest := ih (List.cons_ne_nil next rest)
      rw [List.cons_append] at hrest
      rw [List.cons_append, List.cons_append, join_cons_cons, hrest, join_cons_cons]
      simp only [String.append_assoc]

/-- What stands between two slashes. -/
structure Segment (text : String) : Prop where
  nonempty : text ≠ ""
  noSlash : '/' ∉ text.toList

/-- A segment is the one part of its text. -/
theorem Segment.parts {text : String} (h : Segment text) : parts text = [text] := by
  unfold Ui.parts split
  rw [List.splitOn_eq_singleton h.noSlash, List.map_singleton, String.ofList_toList]
  exact List.filter_cons_of_pos (decide_eq_true h.nonempty)

/-- Segments that are joined are cut where they were joined. -/
theorem parts_join {segments : List String} (h : ∀ segment ∈ segments, Segment segment) :
    parts (join segments) = segments := by
  induction segments with
  | nil =>
    rw [join_nil]
    decide
  | cons segment rest ih =>
    obtain ⟨hsegment, hrest⟩ := List.forall_mem_cons.mp h
    cases rest with
    | nil => rw [join_singleton, hsegment.parts]
    | cons next rest => rw [join_cons_cons, parts_append_slash, hsegment.parts, ih hrest]; rfl

/-- Joined segments tell the segments. -/
theorem join_inj {a b : List String} (ha : ∀ segment ∈ a, Segment segment)
    (hb : ∀ segment ∈ b, Segment segment) (h : join a = join b) : a = b := by
  have hparts := congrArg parts h
  rwa [parts_join ha, parts_join hb] at hparts

theorem join_ne_empty {segments : List String} (h : ∀ segment ∈ segments, Segment segment)
    (hne : segments ≠ []) : join segments ≠ "" := by
  intro hempty
  have hparts := parts_join h
  rw [hempty] at hparts
  exact hne (hparts.symm.trans (by decide))

/-! ## Tokens and actions -/

/-- A token of a path: no file name. -/
structure Token (text : String) : Prop extends Segment text where
  notFile : ¬ Ends ".bin" text

/-- `a` is a lower-case action. Beyond ASCII the case of a text is not its own:
`"ß".toUpperCase()` is `"SS"`. -/
structure Action (text : String) : Prop where
  nonempty : text ≠ ""
  noSlash : '/' ∉ text.toList
  ascii : ∀ c ∈ text.toList, c.toNat < 128
  lower : ∀ c ∈ text.toList, ¬ c.isUpper

/-- The file of an action, as the trie names it. -/
def file (action : String) : String := action.toLower ++ ".bin"

/-- Among the ASCII characters that are no capitals, upper case can be undone. -/
theorem toLower_toUpper_char {c : Char} (hascii : c.toNat < 128) (h : ¬ c.isUpper) :
    c.toUpper.toLower = c := by
  have hall : ∀ n < 128, ¬ (Char.ofNat n).isUpper →
      (Char.ofNat n).toUpper.toLower = Char.ofNat n := by decide
  have hc := hall c.toNat hascii
  rw [Char.ofNat_toNat] at hc
  exact hc h

theorem ends_append_bin (text : String) : Ends ".bin" (text ++ ".bin") := by
  unfold Ends
  rw [String.toList_append]
  exact List.suffix_append _ _

/-- What the extension was appended to. -/
theorem dropBin_append (text : String) : dropBin (text ++ ".bin") = text := by
  have hends : Ends ".bin" (text ++ ".bin").toLower := by
    unfold Ends String.toLower
    rw [String.toList_map, String.toList_append, List.map_append]
    exact List.suffix_append _ _
  have hchars : (text ++ ".bin").toList = text.toList ++ ['.', 'b', 'i', 'n'] :=
    String.toList_append
  unfold dropBin
  rw [if_pos hends, hchars, List.length_append]
  show String.ofList ((text.toList ++ _).take (text.toList.length + 4 - 4)) = text
  rw [Nat.add_sub_cancel, List.take_left, String.ofList_toList]

namespace Action

variable {action : String} (h : Action action)
include h

theorem toLower_toUpper : action.toUpper.toLower = action := by
  refine String.toList_inj.mp ?_
  unfold String.toLower String.toUpper
  rw [String.toList_map, String.toList_map, List.map_map]
  have hid : action.toList.map id = action.toList := List.map_id _
  refine (List.map_congr_left fun c hc => ?_).trans hid
  exact toLower_toUpper_char (h.ascii c hc) (h.lower c hc)

theorem file_toUpper : file action.toUpper = action ++ ".bin" := by
  rw [file, h.toLower_toUpper]

theorem toUpper_ne : action.toUpper ≠ "" := by
  intro hempty
  have hlower := h.toLower_toUpper
  rw [hempty] at hlower
  exact h.nonempty (hlower.symm.trans (by decide +kernel))

theorem segment : Segment (action ++ ".bin") where
  nonempty hempty := by
    have hchars := congrArg String.toList hempty
    rw [String.toList_append] at hchars
    exact absurd (List.append_eq_nil_iff.mp hchars).2 (by decide)
  noSlash hmem := by
    rw [String.toList_append, List.mem_append] at hmem
    rcases hmem with hmem | hmem
    · exact h.noSlash hmem
    · exact absurd hmem (by decide)

end Action

/-! ## Path keys -/

/-- A key `model/paths/<t1>/.../<tn>/<a>.bin`. -/
structure PathKey where
  tokens : List String
  action : String
  tokens_ne : tokens ≠ []
  isToken : ∀ token ∈ tokens, Token token
  isAction : Action action

namespace PathKey

variable (key : PathKey)

/-- The segments of the key below `model/paths`. -/
def segments : List String := key.tokens ++ [key.action ++ ".bin"]

/-- The key without `model/paths/`. -/
def path : String := join key.segments

/-- The key itself. -/
def text : String := "model/paths/" ++ key.path

theorem isSegment : ∀ segment ∈ key.segments, Segment segment := by
  intro segment hsegment
  rcases List.mem_append.mp hsegment with hmem | hmem
  · exact (key.isToken segment hmem).toSegment
  · rw [List.mem_singleton.mp hmem]
    exact key.isAction.segment

/-- The key of a leaf leads to the path of its grammar. -/
theorem grammarKey_text : grammarKey key.text = "/" ++ key.path := by
  have htext : key.text = "model/paths" ++ ("/" ++ key.path) := by
    rw [← String.append_assoc]
    rfl
  rw [htext]
  unfold grammarKey
  rw [if_pos (starts_append _ _), trimPrefix_append]

/-- The key is read back. -/
theorem decodeKey_text : decodeKey key.text = (key.tokens, some key.action.toUpper) := by
  have hparts : parts (grammarKey key.text) = key.tokens ++ [key.action ++ ".bin"] := by
    have hslash : "/" ++ key.path = "" ++ "/" ++ key.path := by rw [String.empty_append]
    have hempty : parts "" = [] := by decide
    rw [key.grammarKey_text, hslash, parts_append_slash, hempty, List.nil_append]
    exact parts_join key.isSegment
  have htokens : keyTokens key.text = (key.tokens, some (key.action ++ ".bin")) := by
    unfold keyTokens
    rw [hparts]
    dsimp only
    rw [List.getLast?_concat, List.dropLast_concat]
    dsimp only
    rw [if_pos (ends_append_bin key.action)]
  unfold decodeKey
  rw [htokens]
  dsimp only
  rw [Option.map_some, dropBin_append]
  exact congrArg _ (Option.filter_some_pos (decide_eq_true key.isAction.toUpper_ne))

end PathKey

end Symm.Ui
