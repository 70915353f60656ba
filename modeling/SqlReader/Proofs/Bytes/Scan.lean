import SqlReader.Proofs.Bytes.Text
import SqlReader.Proofs.VocabularyOrder

/-!
# Scanning bytes

`scanBytes?` scans a text by counting its bytes: entries are compared byte by
byte, words and white space are runs of bytes, and the closing quote is found at
an index.  What the token keeps is then cut out of the text, and there is no token
if one of these cuts does not lie between characters.  The main statement is that
there always is one, and that it is the token of `scan`.
-/

namespace SqlReader

open Text

/-! ## The scanner -/

def wordEnd? (bs : List UInt8) (pos : Nat) (w : List UInt8) : Option Nat :=
  let last := pos + w.length
  if last ≤ bs.length ∧ ((bs.drop pos).take w.length).map upperByte = w.map upperByte then
    some last
  else none

/-- The position behind words that stand at `pos` with white space between them. -/
def phraseEnd? (bs : List UInt8) : Nat → List (List UInt8) → Option Nat
  | pos, [] => some pos
  | pos, [w] => wordEnd? bs pos w
  | pos, w :: ws =>
    match wordEnd? bs pos w with
    | none => none
    | some pos =>
      let gap := ((bs.drop pos).takeWhile isSpaceByte).length
      if gap = 0 then none else phraseEnd? bs (pos + gap) ws

/-- The number of bytes that an entry matches at the start of a text. -/
def Entry.matchLength? (e : Entry) (bs : List UInt8) : Option Nat :=
  match phraseEnd? bs 0 (e.words.map fun w => bytes w.toList) with
  | none => none
  | some pos => if e.endsInWord && bs[pos]?.any isWordByte then none else some pos

def larger (best : Option (Keyword × Nat)) (found : Keyword × Nat) : Option (Keyword × Nat) :=
  match best with
  | none => some found
  | some b => if b.2 ≤ found.2 then some found else some b

def longestLength? (bs : List UInt8) : Option (Keyword × Nat) :=
  (vocabulary.filterMap fun e => (e.matchLength? bs).map fun n => (e.keyword, n)).foldl larger none

def quoteEnd? (bs : List UInt8) (index : Nat) : Option Nat :=
  if _h : index < bs.length then
    if bs[index] = 0x5C ∧ bs[index + 1]? = some 0x27 then quoteEnd? bs (index + 2)
    else if bs[index] = 0x27 then some index
    else quoteEnd? bs (index + 1)
  else none
termination_by bs.length - index

def scanQuotedBytes? (cs : List Char) : Option (Token × Nat) :=
  match quoteEnd? (bytes cs) 1 with
  | some index =>
    (slice? 1 index cs).map fun content => (.literal (String.ofList content), index + 1)
  | none =>
    (dropBytes? 1 cs).map fun content => (.unterminated (String.ofList content), byteLength cs)

def scanWordBytes? (cs : List Char) : Option (Token × Nat) :=
  let length := ((bytes cs).takeWhile isWordByte).length
  if 0 < length then
    (takeBytes? length cs).map fun w => (.word (String.ofList w), length)
  else
    match cs with
    | [] => some (.endOfText, 0)
    | c :: _ => some (.word (String.ofList [c]), c.utf8Size)

/-- The token at the start of a text and its number of bytes, if every cut that is
made on the way lies between characters. -/
def scanBytes? (cs : List Char) : Option (Token × Nat) :=
  if cs = [] then some (.endOfText, 0)
  else
    match longestLength? (bytes cs) with
    | some (k, length) => some (.keyword k, length)
    | none => if cs.head? = some '\'' then scanQuotedBytes? cs else scanWordBytes? cs

/-! ## Words and phrases -/

section Words

variable {a c : Char} {b : UInt8} {w cs : List Char}

theorem upperByte_ascii : ∀ n < 0x80,
    upperByte (UInt8.ofNat n) = UInt8.ofNat (Char.ofNat n).toUpper.toNat := by
  decide

theorem upperByte_high : ∀ n < 0x80,
    upperByte (UInt8.ofNat (0x80 + n)) = UInt8.ofNat (0x80 + n) := by
  decide

theorem upperByte_of_ascii (hc : c.toNat < 0x80) :
    upperByte (UInt8.ofNat c.toNat) = UInt8.ofNat c.toUpper.toNat := by
  rw [upperByte_ascii _ hc, Char.ofNat_toNat]

theorem upperByte_of_le (hb : 0x80 ≤ b.toNat) : upperByte b = b := by
  have hlt : b.toNat < 0x100 := b.toNat_lt
  have hhigh := upperByte_high (b.toNat - 0x80) (by omega)
  rwa [Nat.add_sub_cancel' hb, UInt8.ofNat_toNat] at hhigh

theorem toNat_toUpper_lt (hc : c.toNat < 0x80) : c.toUpper.toNat < 0x80 := by
  by_cases hlow : c.isLower = true
  · rw [toNat_toUpper hlow]
    omega
  · rwa [toUpper_of_not_isLower hlow]

theorem toUpper_of_le (hc : 0x80 ≤ c.toNat) : c.toUpper = c := by
  apply toUpper_of_not_isLower
  intro hlow
  have hrange := isLower_iff.mp hlow
  omega

/-- Two ASCII characters are the same letter just if their bytes are. -/
theorem upperByte_eq_iff (hc : c.toNat < 0x80) (ha : a.toNat < 0x80) :
    upperByte (UInt8.ofNat c.toNat) = upperByte (UInt8.ofNat a.toNat) ↔
      sameLetter a c = true := by
  rw [upperByte_of_ascii hc, upperByte_of_ascii ha, sameLetter, beq_iff_eq]
  constructor
  · intro h
    have htoNat := congrArg UInt8.toNat h
    rw [toNat_ofNat_toNat (toNat_toUpper_lt hc), toNat_ofNat_toNat (toNat_toUpper_lt ha)] at htoNat
    exact (Char.toNat_inj.mp htoNat).symm
  · intro h
    rw [h]

/-- No byte of another character is a letter of ASCII in any case. -/
theorem upperByte_ne (hb : 0x80 ≤ b.toNat) (ha : a.toNat < 0x80) :
    upperByte b ≠ upperByte (UInt8.ofNat a.toNat) := by
  intro h
  have htoNat := congrArg UInt8.toNat h
  have hupper := toNat_toUpper_lt ha
  rw [upperByte_of_le hb, upperByte_of_ascii ha, toNat_ofNat_toNat hupper] at htoNat
  omega

theorem sameLetter_of_le (hc : 0x80 ≤ c.toNat) (ha : a.toNat < 0x80) :
    sameLetter a c = false := by
  have hupper := toNat_toUpper_lt ha
  rw [sameLetter, toUpper_of_le hc, beq_eq_false_iff_ne]
  rintro h
  rw [h] at hupper
  omega

/-- The bytes of an ASCII word stand at the start of a text, in any case, just if
its characters do. -/
theorem map_upperByte_iff (hw : w.all (fun c => decide (c.toNat < 0x80)) = true)
    (cs : List Char) :
    ((bytes cs).take (bytes w).length).map upperByte = (bytes w).map upperByte ↔
      (splitWord w cs).isSome = true := by
  induction w generalizing cs with
  | nil => simp [bytes, splitWord]
  | cons a w ih =>
      obtain ⟨ha, hw⟩ := Bool.and_eq_true _ _ ▸ hw
      have ha : a.toNat < 0x80 := of_decide_eq_true ha
      rw [bytes_cons, utf8EncodeChar_of_ascii ha, List.singleton_append, List.length_cons,
        List.map_cons]
      cases cs with
      | nil => simp [bytes, splitWord]
      | cons c cs =>
          by_cases hc : c.toNat < 0x80
          · rw [bytes_cons, utf8EncodeChar_of_ascii hc, List.singleton_append,
              List.take_succ_cons, List.map_cons, List.cons.injEq, upperByte_eq_iff hc ha, ih hw cs,
              splitWord]
            split
            next hsame => simp [hsame]
            next hsame => simp [hsame]
          · have hle : 0x80 ≤ c.toNat := Nat.le_of_not_lt hc
            obtain ⟨b, bs, hbytes, -⟩ := sameClass_word.exists_utf8EncodeChar c
            have hb : 0x80 ≤ b.toNat :=
              le_toNat_of_mem_utf8EncodeChar hle (hbytes ▸ List.mem_cons_self ..)
            rw [bytes_cons, hbytes, List.cons_append, List.take_succ_cons, List.map_cons,
              List.cons.injEq, splitWord, sameLetter_of_le hle ha]
            simp [upperByte_ne hb ha]

end Words

section Phrases

variable {w : List Char}

theorem drop_bytes (before cs : List Char) :
    (bytes (before ++ cs)).drop (byteLength before) = bytes cs := by
  rw [bytes_append, ← length_bytes, List.drop_left]

theorem wordEnd?_eq (hw : w.all (fun c => decide (c.toNat < 0x80)) = true) (before cs : List Char) :
    wordEnd? (bytes (before ++ cs)) (byteLength before) (bytes w) =
      (splitWord w cs).map fun p => byteLength (before ++ p.1) := by
  have hiff := map_upperByte_iff hw cs
  unfold wordEnd?
  simp only [drop_bytes]
  cases hsplit : splitWord w cs with
  | none =>
      rw [hsplit] at hiff
      rw [if_neg fun h => by simpa using hiff.mp h.2, Option.map_none]
  | some p =>
      obtain ⟨taken, rest⟩ := p
      obtain ⟨rfl, hupper⟩ := splitWord_eq_some_iff.mp hsplit
      have hlength : (bytes w).length = byteLength taken := by
        rw [length_bytes, ← byteLength_upper w, ← hupper, byteLength_upper]
      rw [hsplit] at hiff
      have hle : byteLength before + (bytes w).length ≤
          (bytes (before ++ (taken ++ rest))).length := by
        rw [hlength, length_bytes, byteLength_append, byteLength_append]
        omega
      rw [if_pos ⟨hle, hiff.mpr rfl⟩, Option.map_some, hlength, byteLength_append]

theorem phraseEnd?_eq {ws : List (List Char)}
    (hws : ∀ w ∈ ws, w.all (fun c => decide (c.toNat < 0x80)) = true) (before cs : List Char) :
    phraseEnd? (bytes (before ++ cs)) (byteLength before) (ws.map bytes) =
      (splitPhrase ws cs).map fun p => byteLength (before ++ p.1) := by
  induction ws generalizing before cs with
  | nil => simp [phraseEnd?, splitPhrase]
  | cons w ws ih =>
      have hword := wordEnd?_eq (hws w (List.mem_cons_self ..)) before cs
      cases ws with
      | nil => exact hword
      | cons v ws =>
          simp only [List.map_cons, phraseEnd?, splitPhrase, hword]
          cases hsplit : splitWord w cs with
          | none => rfl
          | some p =>
              obtain ⟨taken, rest⟩ := p
              obtain ⟨rfl, -⟩ := splitWord_eq_some_iff.mp hsplit
              have hgap : (((bytes (before ++ (taken ++ rest))).drop
                  (byteLength (before ++ taken))).takeWhile isSpaceByte).length =
                    byteLength (rest.takeWhile isSpace) := by
                rw [← List.append_assoc, drop_bytes, sameClass_space.length_takeWhile_bytes]
              have hrest := ih (fun x hx => hws x (List.mem_cons_of_mem w hx))
                (before ++ taken ++ rest.takeWhile isSpace) (rest.dropWhile isSpace)
              rw [List.append_assoc _ _ (rest.dropWhile isSpace),
                List.takeWhile_append_dropWhile, List.append_assoc before,
                byteLength_append] at hrest
              simp only [Option.map_some, hgap, List.isEmpty_iff]
              by_cases hnil : rest.takeWhile isSpace = []
              · rw [if_pos (by rw [hnil]; rfl), if_pos hnil, Option.map_none]
              · rw [if_neg (Nat.ne_of_gt (byteLength_pos hnil)), if_neg hnil, Option.map_map,
                  ← List.map_cons, hrest]
                simp only [Function.comp_def, List.append_assoc]

end Phrases

/-! ## Entries -/

section Entries

variable {e : Entry}

theorem Entry.matchLength?_eq (he : e ∈ vocabulary) (cs : List Char) :
    e.matchLength? (bytes cs) = (e.match? cs).map fun m => byteLength m.text := by
  have hwords : (e.words.map fun w => bytes w.toList) = (e.words.map String.toList).map bytes := by
    rw [List.map_map]
    rfl
  have hphrase := phraseEnd?_eq (ascii_of_mem e he) [] cs
  simp only [List.nil_append, byteLength_nil] at hphrase
  unfold Entry.matchLength? Entry.match?
  rw [hwords, hphrase]
  cases hsplit : splitPhrase (e.words.map String.toList) cs with
  | none => rfl
  | some p =>
      obtain ⟨taken, rest⟩ := p
      obtain ⟨rfl, -⟩ := splitPhrase_append hsplit
      have hhead : (bytes (taken ++ rest))[byteLength taken]?.any isWordByte =
          rest.head?.any isWordChar := by
        rw [← List.head?_drop, drop_bytes, sameClass_word.head?_bytes]
      simp only [Option.map_some, hhead]
      split <;> rfl

/-- What a match says of the bytes at the start of a text. -/
def Match.inBytes (m : Match) : Keyword × Nat := (m.keyword, byteLength m.text)

theorem foldl_larger {ms : List Match} (hms : ∀ m ∈ ms, byteLength m.text = m.length)
    (best : Option Match) (hbest : ∀ b ∈ best, byteLength b.text = b.length) :
    (ms.map Match.inBytes).foldl larger (best.map Match.inBytes) =
      (ms.foldl longer best).map Match.inBytes := by
  induction ms generalizing best with
  | nil => rfl
  | cons m ms ih =>
      have hm := hms m (List.mem_cons_self ..)
      have hstep : larger (best.map Match.inBytes) m.inBytes =
          (longer best m).map Match.inBytes := by
        cases best with
        | none => rfl
        | some b =>
            have hle : b.inBytes.2 ≤ m.inBytes.2 ↔ b.length ≤ m.length := by
              rw [Match.inBytes, Match.inBytes, hm, hbest b rfl]
            simp only [Option.map_some, larger, longer, hle]
            split <;> rfl
      have hlonger : ∀ b ∈ longer best m, byteLength b.text = b.length := by
        intro b hb
        have hfold : [m].foldl longer best = some b := hb
        rcases mem_of_foldl_longer hfold with h | h
        · exact hbest b h
        · rwa [List.mem_singleton.mp h]
      rw [List.map_cons, List.foldl_cons, hstep, List.foldl_cons,
        ih (fun x hx => hms x (List.mem_cons_of_mem m hx)) _ hlonger]

theorem longestLength?_eq (cs : List Char) :
    longestLength? (bytes cs) = (longestMatch cs).map Match.inBytes := by
  have hentries : (vocabulary.filterMap fun e =>
      (e.matchLength? (bytes cs)).map fun n => (e.keyword, n)) =
        (vocabulary.filterMap (·.match? cs)).map Match.inBytes := by
    rw [List.map_filterMap]
    refine List.filterMap_congr fun e he => ?_
    rw [e.matchLength?_eq he, Option.map_map]
    cases hm : e.match? cs with
    | none => rfl
    | some m =>
        have hkeyword := (match?_eq_some_iff.mp hm).2.1
        simp [Match.inBytes, hkeyword]
  have hlengths : ∀ m ∈ vocabulary.filterMap (·.match? cs), byteLength m.text = m.length := by
    intro m hmem
    obtain ⟨e, he, hm⟩ := List.mem_filterMap.mp hmem
    exact byteLength_match? he hm
  rw [longestLength?, hentries]
  exact foldl_larger hlengths none (by simp)

end Entries

/-! ## Quotations -/

section Quotations

variable {bs : List UInt8} {b : UInt8} {cs : List Char} {c : Char} {i : Nat}

theorem quoteEnd?_of_getElem? (hb : bs[i]? = some b) :
    quoteEnd? bs i =
      if b = 0x5C ∧ bs[i + 1]? = some 0x27 then quoteEnd? bs (i + 2)
      else if b = 0x27 then some i
      else quoteEnd? bs (i + 1) := by
  obtain ⟨hlt, rfl⟩ := List.getElem?_eq_some_iff.mp hb
  rw [quoteEnd?, dif_pos hlt]

/-- Bytes outside of ASCII are passed over one by one. -/
theorem quoteEnd?_skip {block : List UInt8} (hblock : ∀ b ∈ block, 0x80 ≤ b.toNat)
    (front rest : List UInt8) :
    quoteEnd? (front ++ (block ++ rest)) front.length =
      quoteEnd? (front ++ (block ++ rest)) (front.length + block.length) := by
  induction block generalizing front with
  | nil => rfl
  | cons b block ih =>
      have hb := hblock b (List.mem_cons_self ..)
      have hslash : b ≠ 0x5C := by
        rintro rfl
        exact absurd hb (by decide)
      have hquote : b ≠ 0x27 := by
        rintro rfl
        exact absurd hb (by decide)
      have hget : (front ++ (b :: block ++ rest))[front.length]? = some b := by simp
      have hrest := ih (fun x hx => hblock x (List.mem_cons_of_mem b hx)) (front ++ [b])
      rw [quoteEnd?_of_getElem? hget, if_neg fun h => hslash h.1, if_neg hquote]
      simpa [Nat.add_assoc, Nat.add_comm 1] using hrest

theorem getElem?_bytes_append (hc : c.toNat < 0x80) (before cs : List Char) :
    (bytes (before ++ c :: cs))[byteLength before]? = some (UInt8.ofNat c.toNat) :=
  (getElem?_bytes_iff hc).mpr ⟨before, cs, rfl, rfl⟩

theorem ofNat_toNat_inj {d : Char} (hc : c.toNat < 0x80) (hd : d.toNat < 0x80)
    (h : UInt8.ofNat c.toNat = UInt8.ofNat d.toNat) : c = d := by
  have htoNat := congrArg UInt8.toNat h
  rw [toNat_ofNat_toNat hc, toNat_ofNat_toNat hd] at htoNat
  exact Char.toNat_inj.mp htoNat

/-- A character that does not close the quotation is passed over. -/
theorem quoteEnd?_next (hquote : c ≠ '\'') (hescape : ∀ tail, c = '\\' → cs ≠ '\'' :: tail)
    (before : List Char) :
    quoteEnd? (bytes (before ++ c :: cs)) (byteLength before) =
      quoteEnd? (bytes (before ++ c :: cs)) (byteLength (before ++ [c])) := by
  have hmark : ('\'').toNat < 0x80 := by decide
  by_cases hc : c.toNat < 0x80
  · have hsize : byteLength (before ++ [c]) = byteLength before + 1 := by
      have hbytes := congrArg List.length (utf8EncodeChar_of_ascii hc)
      rw [String.length_utf8EncodeChar] at hbytes
      rw [byteLength_append, byteLength_cons, byteLength_nil, hbytes]
      rfl
    rw [quoteEnd?_of_getElem? (getElem?_bytes_append hc before cs), if_neg, if_neg, hsize]
    · exact fun h => hquote (ofNat_toNat_inj hc hmark h)
    · rintro ⟨hslash, hnext⟩
      obtain ⟨other, tail, htext, hother⟩ := (getElem?_bytes_iff hmark).mp hnext
      have hcut : (before ++ [c]) ++ cs = other ++ '\'' :: tail := by simpa using htext
      obtain rfl := eq_of_byteLength_eq hcut (hsize.trans hother.symm)
      exact hescape tail (ofNat_toNat_inj hc (by decide) hslash) (List.append_cancel_left hcut)
  · have hle : 0x80 ≤ c.toNat := Nat.le_of_not_lt hc
    have hskip := quoteEnd?_skip (fun b hb => le_toNat_of_mem_utf8EncodeChar hle hb)
      (bytes before) (bytes cs)
    rw [length_bytes, String.length_utf8EncodeChar] at hskip
    rw [bytes_append, bytes_cons, hskip, byteLength_append, byteLength_cons, byteLength_nil]
    rfl

/-- The loop over the bytes finds the closing quote that is found in the characters. -/
theorem quoteEnd?_eq (before cs : List Char) :
    quoteEnd? (bytes (before ++ cs)) (byteLength before) =
      (splitQuoted cs).map fun p => byteLength (before ++ p.1) := by
  fun_induction splitQuoted cs generalizing before with
  | case1 =>
      rw [quoteEnd?, dif_neg (by simp), Option.map_none]
  | case2 cs =>
      have hget := getElem?_bytes_append (c := '\'') (by decide) before cs
      rw [quoteEnd?_of_getElem? hget, if_neg fun h => absurd h.1 (by decide), if_pos (by rfl),
        Option.map_some, List.append_nil]
  | case3 cs ih =>
      have hslash := getElem?_bytes_append (c := '\\') (by decide) before ('\'' :: cs)
      have hquote := getElem?_bytes_append (c := '\'') (by decide) (before ++ ['\\']) cs
      have hrest := ih (before ++ ['\\', '\''])
      have hsize : byteLength ['\\', '\''] = 2 := rfl
      rw [List.append_assoc, byteLength_append] at hquote
      rw [List.append_assoc, byteLength_append, hsize] at hrest
      rw [quoteEnd?_of_getElem? hslash, if_pos ⟨rfl, hquote⟩, Option.map_map]
      simpa only [Function.comp_def, List.append_assoc, List.cons_append, List.nil_append]
        using hrest
  | case4 c cs hquote hescape ih =>
      have hrest := ih (before ++ [c])
      rw [List.append_assoc, List.singleton_append] at hrest
      rw [quoteEnd?_next hquote hescape before, hrest, Option.map_map]
      simp only [Function.comp_def, List.append_assoc, List.singleton_append]

end Quotations

/-! ## Tokens -/

theorem scanQuotedBytes?_eq (cs : List Char) :
    scanQuotedBytes? ('\'' :: cs) = some ((scanQuoted cs).token, (scanQuoted cs).size) := by
  have hquote : quoteEnd? (bytes ('\'' :: cs)) 1 =
      (splitQuoted cs).map fun p => byteLength ('\'' :: p.1) := quoteEnd?_eq ['\''] cs
  unfold scanQuotedBytes? scanQuoted
  rw [hquote]
  cases hsplit : splitQuoted cs with
  | none =>
      have hdrop : dropBytes? 1 ('\'' :: cs) = some cs := dropBytes?_append ['\''] cs
      simp only [Option.map_none, hdrop, Option.map_some]
      rfl
  | some p =>
      obtain ⟨content, rest⟩ := p
      have hcs := splitQuoted_append hsplit
      have hslice : slice? 1 (byteLength ('\'' :: content)) ('\'' :: cs) = some content := by
        rw [← hcs]
        exact slice?_append ['\''] content ('\'' :: rest)
      have hsize : byteLength ('\'' :: (content ++ ['\''])) = byteLength ('\'' :: content) + 1 := by
        rw [byteLength_cons, byteLength_append, byteLength_cons]
        rfl
      simp only [Option.map_some, hslice, Lexeme.size, hsize]

theorem scanWordBytes?_eq (c : Char) (cs : List Char) :
    scanWordBytes? (c :: cs) = some ((scanWord c cs).token, (scanWord c cs).size) := by
  unfold scanWordBytes? scanWord
  rw [sameClass_word.length_takeWhile_bytes]
  cases hc : isWordChar c with
  | true =>
      have htake : takeBytes? (byteLength (c :: cs.takeWhile isWordChar)) (c :: cs) =
          some (c :: cs.takeWhile isWordChar) := by
        have happend := takeBytes?_append (c :: cs.takeWhile isWordChar) (cs.dropWhile isWordChar)
        rwa [List.cons_append, List.takeWhile_append_dropWhile] at happend
      have hpos := byteLength_pos (List.cons_ne_nil c (cs.takeWhile isWordChar))
      rw [List.takeWhile_cons_of_pos hc]
      simp only [hpos, htake, if_true, Option.map_some]
      rfl
  | false =>
      rw [List.takeWhile_cons_of_neg (by simp [hc])]
      rfl

/-- Every cut that the scanner makes lies between characters, and what it finds by
counting bytes is the token at the start of the text. -/
theorem scanBytes?_eq (cs : List Char) :
    scanBytes? cs = some ((scan cs).token, (scan cs).size) := by
  cases cs with
  | nil => rfl
  | cons c cs =>
      unfold scanBytes?
      rw [if_neg (List.cons_ne_nil c cs), longestLength?_eq]
      cases hm : longestMatch (c :: cs) with
      | some m =>
          have hscan : scan (c :: cs) = ⟨.keyword m.keyword, m.text, m.rest⟩ := by
            simp only [scan, hm]
          rw [hscan]
          rfl
      | none =>
          by_cases hquote : c = '\''
          · subst hquote
            rw [scan_quote]
            exact scanQuotedBytes?_eq cs
          · have hscan : scan (c :: cs) = scanWord c cs := by simp [scan, hm, hquote]
            have hhead : ¬ (c :: cs).head? = some '\'' := by simpa using hquote
            simp only [Option.map_none, if_neg hhead]
            rw [hscan]
            exact scanWordBytes?_eq c cs

end SqlReader
