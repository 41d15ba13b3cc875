import AnySpans.Proofs.Bytes
import AnySpans.Proofs.Digits
import AnySpans.Server.Frame

/-!
# Frames are read back

A `Frame` is a message as a server may write it: blank lines, header lines of which one gives the
length of the body, a blank line and the body.  The messages of a stream of frames are read back in
order, and of a stream that is cut off those whose frames are complete (`read_stream`).
-/

namespace AnySpans.Number

theorem countWithin?_of_digits {ds : List Char} {most : Nat} (hne : ds ≠ [])
    (hdigits : ds.all Char.isDigit = true) (hmost : ofDigits ds ≤ most) :
    countWithin? most ds = some (ofDigits ds) := by
  have hplain : ∀ rest, ds ≠ '+' :: rest := by
    rintro rest rfl
    simp at hdigits
  rw [countWithin?, if_pos ⟨hne, hdigits, hmost⟩]
  exact hplain

end AnySpans.Number

namespace AnySpans.Server

open AnySpans.Json AnySpans.Number AnySpans.Text

/-! ### Bytes of texts -/

theorem bytesOf_eq (cs : List Char) : bytesOf cs = cs.flatMap String.utf8EncodeChar := by
  show ByteArray.toList.loop (String.ofList cs).toByteArray 0 [] = _
  rw [toList_loop_eq]
  exact List.toList_data_toByteArray

theorem bytesOf_append (cs ds : List Char) : bytesOf (cs ++ ds) = bytesOf cs ++ bytesOf ds := by
  rw [bytesOf_eq, bytesOf_eq, bytesOf_eq, List.flatMap_append]

/-- A text is what its bytes stand for. -/
theorem textOf?_bytesOf (cs : List Char) : textOf? (bytesOf cs) = some cs := by
  have harray : (⟨(bytesOf cs).toArray⟩ : ByteArray) = cs.utf8Encode := by
    rw [bytesOf_eq, ← List.data_toByteArray]
    rfl
  have hvalid : cs.utf8Encode.IsValidUTF8 := ⟨cs, rfl⟩
  rw [textOf?, harray, String.fromUTF8?, dif_pos hvalid, Option.map_some]
  exact congrArg some String.toList_ofList

/-- A line feed among the bytes of a text is a line feed of the text. -/
theorem lineFeed_of_mem_bytesOf {cs : List Char} (h : 10 ∈ bytesOf cs) : '\n' ∈ cs := by
  rw [bytesOf_eq] at h
  obtain ⟨c, hc, hb⟩ := List.mem_flatMap.1 h
  have hb : '\n'.toUInt8 ∈ String.utf8EncodeChar c := hb
  rwa [eq_of_mem_utf8EncodeChar (by decide) hb] at hc

/-! ### Lines -/

/-- A line of text. -/
structure Line where
  text : List Char
  /-- Whether a carriage return stands before the line feed. -/
  returns : Bool
  unbroken : '\n' ∉ text

namespace Line

variable (l : Line)

/-- The bytes of a line up to its line feed. -/
def content : List UInt8 := bytesOf (l.text ++ if l.returns then ['\r'] else [])

def bytes : List UInt8 := l.content ++ [10]

/-- There is nothing but white space. -/
def IsBlank : Prop := trim l.text = []

instance : Decidable l.IsBlank := inferInstanceAs (Decidable (_ = _))

/-- The line is a header that gives a length. -/
def IsLength : Prop := lengthHeader <+: trim l.text

instance : Decidable l.IsLength := inferInstanceAs (Decidable (_ <+: _))

/-- The line is a header that gives a length in decimal digits. -/
def Gives (n : Nat) : Prop := ∃ value, trim l.text = lengthHeader ++ value ∧
  trim value ≠ [] ∧ (trim value).all Char.isDigit = true ∧ ofDigits (trim value) = n

/-- What takes a line among the headers. -/
def takenBy (h : Headers) : Headers := if l.IsBlank then h else h.take (trim l.text)

end Line

/-! ### White space -/

theorem isSpace_of_isDigit {c : Char} (h : c.isDigit = true) : isSpace c = false := by
  simp only [Char.isDigit, ge_iff_le, Bool.and_eq_true, decide_eq_true_eq] at h
  have hlow : 48 ≤ c.toNat := h.1
  have hhigh : c.toNat ≤ 57 := h.2
  simp only [isSpace, Bool.or_eq_false_iff, Bool.and_eq_false_iff, decide_eq_false_iff_not,
    beq_eq_false_iff_ne]
  omega

/-- Nothing is trimmed where a text neither begins nor ends with white space. -/
theorem trim_eq_self {cs : List Char} (hhead : ∀ c ∈ cs.head?, isSpace c = false)
    (hlast : ∀ c ∈ cs.getLast?, isSpace c = false) : trim cs = cs := by
  have hkeep : ∀ ds : List Char, (∀ c ∈ ds.head?, isSpace c = false) → ds.dropWhile isSpace = ds := by
    intro ds hds
    cases ds with
    | nil => rfl
    | cons d ds => rw [List.dropWhile_cons_of_neg (by simp [hds d rfl])]
  rw [trim, hkeep cs hhead, hkeep _ (by rwa [List.head?_reverse]), List.reverse_reverse]

/-! ### Reading lines -/

theorem trim_append_return (cs : List Char) : trim (cs ++ ['\r']) = trim cs := by
  by_cases hblank : cs.dropWhile isSpace = []
  · have : (cs ++ ['\r']).dropWhile isSpace = [] := by
      rw [List.dropWhile_append, hblank]
      rfl
    rw [trim, trim, this, hblank]
  · have : (cs ++ ['\r']).dropWhile isSpace = cs.dropWhile isSpace ++ ['\r'] := by
      rw [List.dropWhile_append, if_neg (by simpa using hblank)]
    rw [trim, trim, this, List.reverse_append]
    rfl

theorem firstLine?_append {bytes line rest : List UInt8} (h : firstLine? bytes = some (line, rest))
    (more : List UInt8) : firstLine? (bytes ++ more) = some (line, rest ++ more) := by
  induction bytes generalizing line with
  | nil => cases h
  | cons b bs ih =>
    rw [List.cons_append, firstLine?]
    rw [firstLine?] at h
    by_cases hb : b = 10
    · rw [if_pos hb] at h ⊢
      cases h
      rfl
    · rw [if_neg hb] at h ⊢
      obtain ⟨⟨line', rest'⟩, hl, he⟩ := Option.map_eq_some_iff.1 h
      cases he
      rw [ih hl, Option.map_some]

theorem firstLine?_of_not_mem {line : List UInt8} (h : 10 ∉ line) (rest : List UInt8) :
    firstLine? (line ++ 10 :: rest) = some (line, rest) := by
  induction line with
  | nil => rfl
  | cons b bs ih =>
    obtain ⟨hb, hbs⟩ := List.ne_and_not_mem_of_not_mem_cons h
    rw [List.cons_append, firstLine?, if_neg (Ne.symm hb), ih hbs, Option.map_some]

theorem firstLine?_eq_none {bytes : List UInt8} (h : 10 ∉ bytes) : firstLine? bytes = none := by
  induction bytes with
  | nil => rfl
  | cons b bs ih =>
    obtain ⟨hb, hbs⟩ := List.ne_and_not_mem_of_not_mem_cons h
    rw [firstLine?, if_neg (Ne.symm hb), ih hbs, Option.map_none]

namespace Line

variable (l : Line)

theorem lineFeed_not_mem_content : 10 ∉ l.content := by
  intro h
  have hmem := lineFeed_of_mem_bytesOf h
  split at hmem
  · rcases List.mem_append.1 hmem with hmem | hmem
    · exact l.unbroken hmem
    · cases List.mem_singleton.1 hmem
  · rw [List.append_nil] at hmem
    exact l.unbroken hmem

theorem textOf?_content : ∃ cs, textOf? l.content = some cs ∧ trim cs = trim l.text := by
  refine ⟨_, textOf?_bytesOf _, ?_⟩
  split
  · exact trim_append_return l.text
  · rw [List.append_nil]

theorem firstLine?_bytes (rest : List UInt8) :
    firstLine? (l.bytes ++ rest) = some (l.content, rest) := by
  rw [bytes, List.append_assoc]
  exact firstLine?_of_not_mem l.lineFeed_not_mem_content rest

end Line

theorem readHeaders_of_lineless {bytes : List UInt8} (hb : 10 ∉ bytes) (h : Headers) :
    readHeaders h bytes = .short (h.cut bytes) := by
  have hline := firstLine?_eq_none hb
  unfold readHeaders
  split
  · rfl
  · rename_i hsome
    rw [hline] at hsome
    cases hsome

theorem readHeaders_of_firstLine? {bytes line rest : List UInt8}
    (hl : firstLine? bytes = some (line, rest)) (h : Headers) :
    readHeaders h bytes = match textOf? line with
      | none => .refused .notText
      | some cs =>
        if trim cs ≠ [] then readHeaders (h.take (trim cs)) rest
        else if h.begun then .complete h.length rest
        else readHeaders h rest := by
  rw [readHeaders]
  split
  · rename_i hnone
    rw [hl] at hnone
    cases hnone
  · rename_i hsome
    rw [hl] at hsome
    cases hsome
    rfl

theorem readHeaders_line (l : Line) (h : Headers) (rest : List UInt8) :
    readHeaders h (l.bytes ++ rest) =
      if l.IsBlank ∧ h.begun then .complete h.length rest else readHeaders (l.takenBy h) rest := by
  obtain ⟨cs, htext, htrim⟩ := l.textOf?_content
  rw [readHeaders_of_firstLine? (l.firstLine?_bytes rest), htext]
  dsimp only
  rw [htrim, Line.takenBy]
  by_cases hblank : l.IsBlank
  · have hempty : trim l.text = [] := hblank
    cases h.begun <;> simp [hblank, hempty]
  · have hfull : trim l.text ≠ [] := hblank
    simp [hblank, hfull]

/-! ### Frames -/

/-- A message as a server may write it. -/
structure Frame where
  message : Message
  blanks : List Line
  before : List Line
  length : Line
  after : List Line
  separator : Line
  body : List UInt8
  blank_of_mem : ∀ l ∈ blanks, l.IsBlank
  other_of_mem : ∀ l ∈ before ++ after, ¬l.IsBlank ∧ ¬l.IsLength
  gives_length : length.Gives body.length
  blank_separator : separator.IsBlank
  /-- The body is one that can be held. -/
  held : body.length ≤ lengthLimit
  message_body : messageIn? body = some message

namespace Frame

variable (f : Frame)

/-- The bytes up to the body. -/
def head : List UInt8 :=
  (f.blanks ++ f.before ++ f.length :: f.after ++ [f.separator]).flatMap Line.bytes

def bytes : List UInt8 := f.head ++ f.body

end Frame

/-! ### Reading headers -/

/-- Header lines are refused only as no text. -/
theorem readHeaders_eq_refused {h : Headers} {bytes : List UInt8} {e : FrameError}
    (hr : readHeaders h bytes = .refused e) : e = .notText := by
  fun_induction readHeaders h bytes with
  | case1 => cases hr
  | case2 =>
    cases hr
    rfl
  | case3 _ _ _ _ _ _ _ _ _ ih => exact ih hr
  | case4 => cases hr
  | case5 _ _ _ _ _ _ _ _ _ _ ih => exact ih hr

/-- Headers that are complete do not depend on what follows. -/
theorem readHeaders_append {h : Headers} {bytes rest : List UInt8} {length : Option Nat}
    (hr : readHeaders h bytes = .complete length rest) (more : List UInt8) :
    readHeaders h (bytes ++ more) = .complete length (rest ++ more) := by
  fun_induction readHeaders h bytes with
  | case1 => cases hr
  | case2 => cases hr
  | case3 _ _ _ _ hl _ htext _ hfull ih =>
    rw [readHeaders_of_firstLine? (firstLine?_append hl more), htext]
    exact (if_pos hfull).trans (ih hr)
  | case4 _ _ _ _ hl _ htext _ hblank hbegun =>
    cases hr
    rw [readHeaders_of_firstLine? (firstLine?_append hl more), htext]
    exact (if_neg hblank).trans (if_pos hbegun)
  | case5 _ _ _ _ hl _ htext _ hblank hbegun ih =>
    rw [readHeaders_of_firstLine? (firstLine?_append hl more), htext]
    exact (if_neg hblank).trans ((if_neg hbegun).trans (ih hr))

theorem Line.not_isBlank_of_gives {l : Line} {n : Nat} (hl : l.Gives n) : ¬l.IsBlank := by
  obtain ⟨value, htext, -⟩ := hl
  rw [IsBlank, htext]
  exact List.append_ne_nil_of_left_ne_nil (by decide) _

theorem Line.takenBy_of_gives {l : Line} {n : Nat} (hl : l.Gives n) (hn : n ≤ lengthLimit)
    (h : Headers) : l.takenBy h = ⟨true, some n⟩ := by
  have hfull := l.not_isBlank_of_gives hl
  obtain ⟨value, htext, hne, hdigits, hvalue⟩ := hl
  have hprefix : lengthHeader.isPrefixOf (trim l.text) = true := by
    rw [htext, List.isPrefixOf_iff_prefix]
    exact List.prefix_append _ _
  have hcount : countWithin? (Nat.pow 2 64 - 1) (trim value) = some n := by
    have hlimit : lengthLimit ≤ Nat.pow 2 64 - 1 := by decide
    rw [countWithin?_of_digits hne hdigits (by omega), hvalue]
  rw [takenBy, if_neg hfull, Headers.take, if_pos hprefix, htext, List.drop_left, hcount]

theorem Line.takenBy_of_other {l : Line} (hblank : ¬l.IsBlank) (hlength : ¬l.IsLength)
    (h : Headers) : l.takenBy h = ⟨true, h.length⟩ := by
  have hprefix : ¬lengthHeader.isPrefixOf (trim l.text) = true := by
    rwa [List.isPrefixOf_iff_prefix]
  rw [takenBy, if_neg hblank, Headers.take, if_neg hprefix]

namespace Frame

variable (f : Frame)

/-- Lines that are not blank are taken one after another. -/
theorem readHeaders_lines {ls : List Line} (hls : ∀ l ∈ ls, ¬l.IsBlank) (h : Headers)
    (rest : List UInt8) : readHeaders h (ls.flatMap Line.bytes ++ rest) =
      readHeaders (ls.foldl (fun h l => l.takenBy h) h) rest := by
  induction ls generalizing h with
  | nil => rfl
  | cons l ls ih =>
    have hl : ¬l.IsBlank := hls l List.mem_cons_self
    rw [List.flatMap_cons, List.append_assoc, readHeaders_line, if_neg fun hblank => hl hblank.1,
      List.foldl_cons]
    exact ih (fun l hl => hls l (List.mem_cons_of_mem _ hl)) _

theorem readHeaders_blanks {ls : List Line} (hls : ∀ l ∈ ls, l.IsBlank) (rest : List UInt8) :
    readHeaders .none (ls.flatMap Line.bytes ++ rest) = readHeaders .none rest := by
  induction ls with
  | nil => rfl
  | cons l ls ih =>
    have hl : l.IsBlank := hls l List.mem_cons_self
    rw [List.flatMap_cons, List.append_assoc, readHeaders_line, if_neg (by simp [Headers.none]),
      Line.takenBy, if_pos hl]
    exact ih fun l hl => hls l (List.mem_cons_of_mem _ hl)

theorem takenBy_of_mem {l : Line} (hl : l ∈ f.before ++ f.after) (h : Headers) :
    l.takenBy h = ⟨true, h.length⟩ :=
  l.takenBy_of_other (f.other_of_mem l hl).1 (f.other_of_mem l hl).2 h

theorem foldl_after (n : Option Nat) :
    f.after.foldl (fun h l => l.takenBy h) ⟨true, n⟩ = ⟨true, n⟩ := by
  have hafter : ∀ l ∈ f.after, ∀ h : Headers, l.takenBy h = ⟨true, h.length⟩ :=
    fun l hl => f.takenBy_of_mem (List.mem_append_right _ hl)
  generalize f.after = ls at hafter
  induction ls with
  | nil => rfl
  | cons l ls ih =>
    rw [List.foldl_cons, hafter l List.mem_cons_self]
    exact ih fun l hl => hafter l (List.mem_cons_of_mem _ hl)

/-- The headers of a frame are complete at its body and give the body's length. -/
theorem readHeaders_head (rest : List UInt8) :
    readHeaders .none (f.head ++ rest) = .complete (some f.body.length) rest := by
  have hlines : ∀ l ∈ f.before ++ f.length :: f.after, ¬l.IsBlank := by
    intro l hl
    rcases List.mem_append.1 hl with hl | hl
    · exact (f.other_of_mem l (List.mem_append_left _ hl)).1
    · rcases List.mem_cons.1 hl with rfl | hl
      · exact Line.not_isBlank_of_gives f.gives_length
      · exact (f.other_of_mem l (List.mem_append_right _ hl)).1
  have hfold : (f.before ++ f.length :: f.after).foldl (fun h l => l.takenBy h) .none =
      ⟨true, some f.body.length⟩ := by
    rw [List.foldl_append, List.foldl_cons, Line.takenBy_of_gives f.gives_length f.held]
    exact f.foldl_after _
  have hhead : f.head = f.blanks.flatMap Line.bytes ++
      ((f.before ++ f.length :: f.after).flatMap Line.bytes ++ f.separator.bytes) := by
    simp [head]
  rw [hhead, List.append_assoc, readHeaders_blanks f.blank_of_mem, List.append_assoc,
    readHeaders_lines hlines, hfold, readHeaders_line, if_pos ⟨f.blank_separator, rfl⟩]

/-- A frame is read as its message, whatever follows. -/
theorem readMessage_bytes (rest : List UInt8) :
    readMessage (f.bytes ++ rest) = .message f.message rest := by
  have hheaders := f.readHeaders_head (f.body ++ rest)
  have hlimit : ¬lengthLimit < f.body.length := Nat.not_lt.2 f.held
  rw [← List.append_assoc] at hheaders
  rw [readMessage, bytes, hheaders]
  simp [hlimit, f.message_body]

end Frame

theorem readMessages_eq (bytes : List UInt8) : readMessages bytes =
    match readMessage bytes with
    | .message m rest => (m :: (readMessages rest).1, (readMessages rest).2)
    | .refused e => ([], some e)
    | .short e => ([], e) := by
  rw [readMessages]
  split <;> rename_i h <;> rw [h]

theorem readMessages_of_message {bytes rest : List UInt8} {m : Message}
    (h : readMessage bytes = .message m rest) :
    readMessages bytes = (m :: (readMessages rest).1, (readMessages rest).2) := by
  rw [readMessages_eq, h]

theorem readMessages_of_refused {bytes : List UInt8} {e : FrameError}
    (h : readMessage bytes = .refused e) : readMessages bytes = ([], some e) := by
  rw [readMessages_eq, h]

theorem readMessages_of_short {bytes : List UInt8} {e : Option FrameError}
    (h : readMessage bytes = .short e) : readMessages bytes = ([], e) := by
  rw [readMessages_eq, h]

/-- A message does not depend on what follows. -/
theorem readMessage_append {bytes rest : List UInt8} {m : Message}
    (h : readMessage bytes = .message m rest) (more : List UInt8) :
    readMessage (bytes ++ more) = .message m (rest ++ more) := by
  obtain ⟨n, body, hheaders, hlimit, hlength, hm, rfl⟩ := readMessage_eq_message h
  have htake : (body ++ more).take n = body.take n := List.take_append_of_le_length hlength
  have hdrop : (body ++ more).drop n = body.drop n ++ more := List.drop_append_of_le_length hlength
  have hfull : ¬(body.take n).length < n := by
    rw [List.length_take]
    omega
  rw [readMessage, readHeaders_append hheaders more]
  dsimp only
  rw [if_neg (Nat.not_lt.2 hlimit), htake, if_neg hfull, hm, hdrop]

/-! ### Frames that are cut off -/

/-- No length beyond the limit was given. -/
def Headers.Bounded (h : Headers) : Prop := ∀ n, h.length = some n → n ≤ lengthLimit

theorem Headers.Bounded.cut_ne {h : Headers} (hb : h.Bounded) (bytes : List UInt8) :
    h.cut bytes ≠ some .tooLong := by
  intro hcut
  unfold Headers.cut at hcut
  split at hcut
  · cases hcut
  · split_ifs at hcut
    split at hcut
    · cases hcut
    · cases hcut
    · rename_i n _ hn
      rw [if_neg (Nat.not_lt.2 (hb n hn))] at hcut
      cases hcut

/-- Bytes that end among lines do not announce too long a body if none of the lines does. -/
theorem readHeaders_ne_tooLong {ls : List Line} {p : List UInt8} {h : Headers}
    (hls : ∀ l ∈ ls, ∀ h : Headers, h.Bounded → (l.takenBy h).Bounded) (hb : h.Bounded)
    (hp : p <+: ls.flatMap Line.bytes) : readHeaders h p ≠ .short (some .tooLong) := by
  have hlineless : ∀ {p : List UInt8} {h : Headers}, h.Bounded → 10 ∉ p →
      readHeaders h p ≠ .short (some .tooLong) := by
    intro p h hb hp hshort
    rw [readHeaders_of_lineless hp] at hshort
    exact hb.cut_ne p (HeadersReading.short.inj hshort)
  induction ls generalizing p h with
  | nil =>
    rw [List.prefix_nil.1 hp]
    exact hlineless hb List.not_mem_nil
  | cons l ls ih =>
    rw [List.flatMap_cons] at hp
    by_cases hwhole : l.bytes <+: p
    · obtain ⟨p', rfl⟩ := hwhole
      rw [readHeaders_line]
      split_ifs
      · nofun
      · exact ih (fun l hl => hls l (List.mem_cons_of_mem _ hl)) (hls l List.mem_cons_self h hb)
          ((List.prefix_append_right_inj _).1 hp)
    · -- The cut lies within this line, before its line feed.
      have hcut := (List.prefix_or_prefix_of_prefix hp (List.prefix_append _ _)).resolve_right hwhole
      rcases List.prefix_concat_iff.1 hcut with rfl | hcontent
      · exact absurd List.prefix_rfl hwhole
      · exact hlineless hb fun hmem => l.lineFeed_not_mem_content (hcontent.subset hmem)

namespace Frame

variable (f : Frame)

theorem bounded_takenBy {l : Line}
    (hl : l ∈ f.blanks ++ f.before ++ f.length :: f.after ++ [f.separator]) (h : Headers)
    (hb : h.Bounded) : (l.takenBy h).Bounded := by
  have hblank : l.IsBlank → (l.takenBy h).Bounded := fun hl => by rwa [Line.takenBy, if_pos hl]
  have hother : l ∈ f.before ++ f.after → (l.takenBy h).Bounded := fun hl => by
    rw [f.takenBy_of_mem hl]
    exact hb
  simp only [List.mem_append, List.mem_cons, List.not_mem_nil, or_false] at hl
  rcases hl with ((hl | hl) | rfl | hl) | rfl
  · exact hblank (f.blank_of_mem l hl)
  · exact hother (List.mem_append_left _ hl)
  · rw [Line.takenBy_of_gives f.gives_length f.held]
    rintro n ⟨⟩
    exact f.held
  · exact hother (List.mem_append_right _ hl)
  · exact hblank f.blank_separator

/-- Of a frame that is cut off nothing is read. -/
theorem readMessages_of_cut {p : List UInt8} (hp : p <+: f.bytes) (hne : p ≠ f.bytes) :
    ∃ e, readMessages p = ([], e) ∧ e ≠ some .tooLong := by
  obtain ⟨q, hq⟩ := hp
  have hq' : q ≠ [] := by
    rintro rfl
    rw [List.append_nil] at hq
    exact hne hq
  cases hheaders : readHeaders .none p with
  | refused e =>
    have hread : readMessage p = .refused e := by rw [readMessage, hheaders]
    refine ⟨some e, readMessages_of_refused hread, ?_⟩
    rw [readHeaders_eq_refused hheaders]
    nofun
  | short e =>
    have hread : readMessage p = .short e := by rw [readMessage, hheaders]
    refine ⟨e, readMessages_of_short hread, ?_⟩
    rintro rfl
    have hhead : ¬f.head <+: p := by
      rintro ⟨b, rfl⟩
      rw [f.readHeaders_head] at hheaders
      cases hheaders
    have hlines : p <+: f.head := by
      have hp : p <+: f.head ++ f.body := ⟨q, hq⟩
      exact (List.prefix_or_prefix_of_prefix hp (List.prefix_append _ _)).resolve_right hhead
    have hnone : Headers.none.Bounded := by
      rintro n ⟨⟩
    exact readHeaders_ne_tooLong (fun l hl => f.bounded_takenBy hl) hnone hlines hheaders
  | complete n rest =>
    have hwhole := readHeaders_append hheaders q
    rw [hq, bytes, f.readHeaders_head] at hwhole
    obtain ⟨hn, hbody⟩ := HeadersReading.complete.inj hwhole
    have hshort : (rest.take f.body.length).length < f.body.length := by
      have := List.length_pos_iff.2 hq'
      rw [List.length_take, hbody, List.length_append]
      omega
    have hread : readMessage p = .short (some .cutOff) := by
      rw [readMessage, hheaders, ← hn]
      dsimp only
      rw [if_neg (Nat.not_lt.2 f.held), if_pos hshort]
    exact ⟨some .cutOff, readMessages_of_short hread, nofun⟩

end Frame

/-! ### Streams -/

/-- The bytes of frames one after another. -/
def stream (fs : List Frame) : List UInt8 := fs.flatMap Frame.bytes

/-- The frames that lie within the first bytes of a stream. -/
def framesWithin : (length : Nat) → List Frame → List Frame
  | _, [] => []
  | length, f :: fs =>
    if f.bytes.length ≤ length then f :: framesWithin (length - f.bytes.length) fs else []

theorem readMessage_nil : readMessage [] = .short none := by
  rw [readMessage, readHeaders_of_lineless List.not_mem_nil]
  rfl

/-- The messages of a stream are those of its frames that lie within what is left of it. -/
theorem readMessages_take (fs : List Frame) (n : Nat) :
    ∃ e, readMessages ((stream fs).take n) = ((framesWithin n fs).map Frame.message, e) ∧
      e ≠ some .tooLong ∧ ((stream fs).length ≤ n → e = none ∧ framesWithin n fs = fs) := by
  induction fs generalizing n with
  | nil =>
    rw [stream, List.flatMap_nil, List.take_nil, readMessages_of_short readMessage_nil]
    exact ⟨none, rfl, nofun, fun _ => ⟨rfl, rfl⟩⟩
  | cons f fs ih =>
    have hstream : stream (f :: fs) = f.bytes ++ stream fs := List.flatMap_cons
    rw [hstream, framesWithin, List.length_append]
    by_cases hn : f.bytes.length ≤ n
    · obtain ⟨e, hread, he, hwhole⟩ := ih (n - f.bytes.length)
      have htake : (f.bytes ++ stream fs).take n =
          f.bytes ++ (stream fs).take (n - f.bytes.length) := by
        rw [List.take_append, List.take_of_length_le hn]
      rw [htake, readMessages_of_message (f.readMessage_bytes _), hread, if_pos hn]
      refine ⟨e, rfl, he, fun hlength => ?_⟩
      obtain ⟨rfl, hfs⟩ := hwhole (by omega)
      exact ⟨rfl, congrArg _ hfs⟩
    · have htake : (f.bytes ++ stream fs).take n = f.bytes.take n :=
        List.take_append_of_le_length (by omega)
      have hne : f.bytes.take n ≠ f.bytes := by
        intro heq
        have := congrArg List.length heq
        rw [List.length_take] at this
        omega
      obtain ⟨e, hread, he⟩ := f.readMessages_of_cut (List.take_prefix n f.bytes) hne
      rw [htake, hread, if_neg hn]
      exact ⟨e, rfl, he, fun hlength => by omega⟩

/-- The messages of a stream of frames are read back in order and nothing is left over; of a stream
that is cut off anywhere those are read whose frames are complete, then the bytes end or are refused. -/
theorem read_stream (fs : List Frame) :
    readMessages (stream fs) = (fs.map Frame.message, none) ∧
      ∀ n, ∃ e, readMessages ((stream fs).take n) = ((framesWithin n fs).map Frame.message, e) ∧
        e ≠ some .tooLong := by
  refine ⟨?_, fun n => ?_⟩
  · obtain ⟨e, hread, -, hwhole⟩ := readMessages_take fs (stream fs).length
    obtain ⟨rfl, hfs⟩ := hwhole (Nat.le_refl _)
    rwa [List.take_length, hfs] at hread
  · obtain ⟨e, hread, he, -⟩ := readMessages_take fs n
    exact ⟨e, hread, he⟩

/-! ### Frames with one header -/

theorem gives_length_toString {l : Line} {n : Nat}
    (hl : l.text = lengthHeader ++ ' ' :: (toString n).toList) : l.Gives n := by
  have hdigit : ∀ c ∈ (toString n).toList, isSpace c = false :=
    fun c hc => isSpace_of_isDigit (isDigit_of_mem_toString hc)
  have hlast : ∀ (cs : List Char), ∀ c ∈ (cs ++ (toString n).toList).getLast?, isSpace c = false := by
    intro cs c hc
    rw [List.getLast?_append_of_ne_nil _ (toString_ne_nil n)] at hc
    exact hdigit c (List.mem_of_getLast? hc)
  have hvalue : trim (' ' :: (toString n).toList) = (toString n).toList := by
    have : trim (' ' :: (toString n).toList) = trim (toString n).toList := rfl
    rw [this, trim_eq_self (fun c hc => hdigit c (List.mem_of_head? hc)) (hlast [])]
  refine ⟨' ' :: (toString n).toList, ?_, ?_⟩
  · rw [hl]
    refine trim_eq_self ?_ (hlast (lengthHeader ++ [' ']))
    rintro c ⟨⟩
    decide
  · rw [hvalue]
    exact ⟨toString_ne_nil n, List.all_eq_true.2 fun c => isDigit_of_mem_toString,
      ofDigits_toString n⟩

theorem lineFeed_not_mem_toString (n : Nat) :
    '\n' ∉ lengthHeader ++ ' ' :: (toString n).toList := by
  intro h
  rcases List.mem_append.1 h with h | h
  · revert h
    decide
  · rcases List.mem_cons.1 h with h | h
    · cases h
    · have := isDigit_of_mem_toString h
      revert this
      decide

namespace Frame

/-- The frame of a body whose length is the only header. -/
def ofBody (body : List UInt8) (m : Message) (hm : messageIn? body = some m)
    (hheld : body.length ≤ lengthLimit) : Frame where
  message := m
  blanks := []
  before := []
  length := ⟨lengthHeader ++ ' ' :: (toString body.length).toList, true, lineFeed_not_mem_toString _⟩
  after := []
  separator := ⟨[], true, List.not_mem_nil⟩
  body
  blank_of_mem := nofun
  other_of_mem := nofun
  gives_length := gives_length_toString rfl
  blank_separator := rfl
  held := hheld
  message_body := hm

/-- What is written around a value is the frame of its message. -/
theorem frame_eq_bytes {v : Value} {m : Message} {body : List UInt8}
    (hbody : bytesOf (v.write ++ ['\n']) = body) (hm : messageIn? body = some m)
    (hheld : body.length ≤ lengthLimit) : frame v = (ofBody body m hm hheld).bytes := by
  have hfeed : bytesOf ['\n'] = [10] := by
    rw [bytesOf_eq]
    decide
  have hend : ∀ cs : List Char, bytesOf cs ++ [10] = bytesOf (cs ++ ['\n']) := by
    intro cs
    rw [bytesOf_append, hfeed]
  have hhead : (ofBody body m hm hheld).head =
      bytesOf (lengthHeader ++ ' ' :: (toString body.length).toList ++ ['\r'] ++ ['\n']) ++
        bytesOf ['\r', '\n'] := by
    simp only [head, ofBody, List.nil_append, List.singleton_append, List.flatMap_cons,
      List.flatMap_nil, Line.bytes, Line.content, if_true, hend, List.append_nil]
  have htext : ∀ ds, "Content-Length: ".toList ++ ds ++ "\r\n\r\n".toList =
      lengthHeader ++ ' ' :: ds ++ ['\r'] ++ ['\n'] ++ ['\r', '\n'] := by
    intro ds
    have hbegin : "Content-Length: ".toList = lengthHeader ++ [' '] := by decide
    have hbreaks : "\r\n\r\n".toList = ['\r', '\n'] ++ ['\r', '\n'] := by decide
    rw [hbegin, hbreaks]
    simp only [List.append_assoc, List.cons_append, List.nil_append]
  unfold frame
  rw [hbody, bytes, hhead, ← bytesOf_append, ← htext]
  rfl

end Frame

/-! ### A stream of two frames -/

/-- The body of an event, with text that looks like a header. -/
def eventBody : List UInt8 :=
  bytesOf "\x7b\"type\":\"event\",\n\n\"event\":\"é 漢\",\"body\":\"Content-Length: 3\"\x7d".toList

/-- The body of a response. -/
def responseBody : List UInt8 := bytesOf
  "\x7b\"type\":\"response\",\"request_seq\":1,\"command\":\"open\",\"success\":true\x7d\n".toList

/-- An event in a frame with blank lines, other headers and line feeds of both kinds. -/
def eventFrame : Frame where
  message := (messageIn? eventBody).get (by decide +kernel)
  blanks := [⟨[], true, by decide⟩, ⟨[' '], false, by decide⟩]
  before := [⟨"X-Name: é".toList, false, by decide⟩]
  length := ⟨"Content-Length:  62 ".toList, true, by decide⟩
  after := [⟨"content-length: 7".toList, true, by decide⟩]
  separator := ⟨[], false, by decide⟩
  body := eventBody
  blank_of_mem := by decide
  other_of_mem := by decide
  gives_length := ⟨"  62".toList, by decide, by decide, by decide, by decide +kernel⟩
  blank_separator := by decide
  held := by decide +kernel
  message_body := Option.some_get _ |>.symm

def responseFrame : Frame :=
  .ofBody responseBody ((messageIn? responseBody).get (by decide +kernel)) (Option.some_get _).symm
    (by decide +kernel)

/-- Both messages are read, and the first one if the second frame is cut off. -/
theorem two_frames_read :
    readMessages (stream [eventFrame, responseFrame]) =
        ([eventFrame.message, responseFrame.message], none) ∧
      ∃ e, readMessages ((stream [eventFrame, responseFrame]).take 170) = ([eventFrame.message], e) ∧
        e ≠ some .tooLong := by
  have hwithin : framesWithin 170 [eventFrame, responseFrame] = [eventFrame] := by
    have hfirst : eventFrame.bytes.length ≤ 170 := by decide +kernel
    have hsecond : ¬responseFrame.bytes.length ≤ 170 - eventFrame.bytes.length := by decide +kernel
    rw [framesWithin, if_pos hfirst, framesWithin, if_neg hsecond]
  obtain ⟨hwhole, hcut⟩ := read_stream [eventFrame, responseFrame]
  refine ⟨hwhole, ?_⟩
  have := hcut 170
  rwa [hwithin] at this

end AnySpans.Server
