import Shoutmark.Proofs.Token.Joined
import Shoutmark.Token.Scanner

/-! A scanner that reads a whole source character by character comes to what reading the text at
once comes to. The word being built and the text ahead of the scanner are together what is still to
be read; this holds at every turn, and what a reading leaves behind follows from it. -/

namespace Shoutmark.Token
open Shoutmark.Text (not_head_dropWhile mem_takeWhile)

/-- What reading comes to: nothing to object to, or the word that is not valid. -/
def Scan.verdict (r : Scan) : Except String Unit :=
  match r.invalid with
  | none => .ok ()
  | some word => .error word

/-- The word that some characters make, if there are any. -/
def wordOf (w : List Char) : List String := if w = [] then [] else [String.ofList w]

theorem Scan.after_after (r : Scan) (a b : List String) :
    (r.after a).after b = r.after (b ++ a) := by
  simp [Scan.after]

/-! ### What a text starts with -/

theorem scan_plain {w rest : List Char} (hw : ∀ c ∈ w, isPlain c = true)
    (hs : ∀ c, rest.head? = some c → isPlain c = false) :
    scan (w ++ rest) = (scan rest).after (wordOf w) := by
  by_cases hn : w = []
  · subst hn
    rfl
  · have hword : IsPlainWord (String.ofList w) := by
      refine ⟨fun he => hn ?_, by rwa [String.toList_ofList]⟩
      rw [← String.toList_ofList (l := w), he, String.toList_empty]
    have hscan : scan ((String.ofList w).toList ++ rest) = (scan rest).after [String.ofList w] :=
      scan_word (Or.inl hword) fun c hc => Or.inl (hs c hc)
    rw [String.toList_ofList] at hscan
    rw [hscan, wordOf, if_neg hn]

/-- A text with a special word that is not valid is read up to the end of that word; the words read
are the words of the text before it. -/
theorem scan_refused {s : List Char} {t : String} (h : (scan s).invalid = some t) :
    ∃ before, s = before ++ (t.toList ++ (scan s).rest) ∧
      scan before = ⟨(scan s).tokens, none, []⟩ ∧ t.toList.head? = some specialMark ∧
      ∀ c, (scan s).rest.head? = some c → continuesSpecial c = false := by
  have first {a b rest : List Char} (hab : rest = a ++ b) {c : Char} (hc : a.head? = some c) :
      rest.head? = some c := by
    rw [hab, List.head?_append, hc]
    rfl
  fun_induction scan s with
  | case1 => cases h
  | case2 c cs hc ih =>
    obtain ⟨before, hs, hb, ht⟩ := ih h
    refine ⟨c :: before, congrArg (c :: ·) hs, ?_, ht⟩
    rw [scan, if_pos hc, hb]
  | case3 cs rest _ word hv ih =>
    obtain ⟨before, hs, hb, ht⟩ := ih h
    have hword : word.toList ++ rest = specialMark :: cs := by
      rw [String.toList_ofList, List.cons_append, List.takeWhile_append_dropWhile]
    have hsp : IsSpecialWord word :=
      (isSpecialWord_ofList fun _ hd => mem_takeWhile hd).mpr hv
    have hstop : Stops word before := fun c hc =>
      Or.inr ⟨hsp, not_head_dropWhile (first hs hc)⟩
    refine ⟨word.toList ++ before, ?_, ?_, ht⟩
    · rw [← hword, List.append_assoc]
      exact congrArg (word.toList ++ ·) hs
    · rw [scan_word (Or.inr hsp) hstop, hb]
      rfl
  | case4 cs rest _ word _ =>
    obtain rfl : word = t := Option.some.inj h
    refine ⟨[], ?_, by rw [scan], ?_, fun c hc => not_head_dropWhile hc⟩
    · rw [String.toList_ofList, List.nil_append, List.cons_append, List.takeWhile_append_dropWhile]
    · rw [String.toList_ofList]
      rfl
  | case5 c cs hc hm ih =>
    obtain ⟨before, hs, hb, ht⟩ := ih h
    have hp : isPlain c = true := isPlain_iff.mpr ⟨by simpa using hc, hm⟩
    have hword : (String.ofList (c :: cs.takeWhile isPlain)).toList ++ cs.dropWhile isPlain =
        c :: cs := by
      rw [String.toList_ofList, List.cons_append, List.takeWhile_append_dropWhile]
    have hstop : Stops (String.ofList (c :: cs.takeWhile isPlain)) before := fun d hd =>
      Or.inl (not_head_dropWhile (first hs hd))
    refine ⟨(String.ofList (c :: cs.takeWhile isPlain)).toList ++ before, ?_, ?_, ht⟩
    · rw [← hword, List.append_assoc]
      exact congrArg (_ ++ ·) hs
    · rw [scan_word (Or.inl (isPlainWord_ofList hp)) hstop, hb]
      rfl

theorem rest_scan {s : List Char} (h : (scan s).invalid = none) : (scan s).rest = [] := by
  fun_induction scan s with
  | case1 => rfl
  | case2 _ _ _ ih => exact ih h
  | case3 _ _ _ _ _ ih => exact ih h
  | case4 => cases h
  | case5 _ _ _ _ ih => exact ih h

namespace Scanner

/-! ### The scanner at work -/

/-- The text that the scanner has not come to. -/
def ahead (s : Scanner) : List Char := s.source.toList.drop s.position

/-- The word being built is made of these characters of a plain word, one at a time. -/
structure Holds (s : Scanner) (w : List Char) : Prop where
  pending : s.pending = w.map String.singleton
  plain : ∀ c ∈ w, isPlain c = true

theorem holds_nil {s : Scanner} (h : s.pending = []) : s.Holds [] :=
  ⟨h, fun _ hc => absurd hc List.not_mem_nil⟩

theorem Holds.lexeme {s : Scanner} {w : List Char} (h : s.Holds w) :
    s.lexeme = String.ofList w := by
  rw [Scanner.lexeme, h.pending, ← String.toList_inj, String.toList_join, String.toList_ofList,
    List.flatMap_map]
  simp

theorem Holds.flush {s : Scanner} {w : List Char} (h : s.Holds w) :
    s.flush = { s with pending := [], tokens := s.tokens ++ wordOf w } := by
  obtain ⟨source, position, pending, tokens⟩ := s
  obtain rfl : pending = w.map String.singleton := h.pending
  rw [Scanner.flush, h.lexeme, wordOf]
  by_cases hw : w = []
  · subst hw
    simp
  · simp [hw]

theorem Holds.push {s : Scanner} {w : List Char} {c : Char} (h : s.Holds w)
    (hc : isPlain c = true) : (s.push (String.singleton c)).Holds (w ++ [c]) := by
  refine ⟨?_, fun d hd => ?_⟩
  · rw [Scanner.push, h.pending, List.map_append]
    rfl
  · rcases List.mem_append.mp hd with hd | hd
    · exact h.plain d hd
    · rwa [List.mem_singleton.mp hd]

/-- The scanner has just read the character. -/
structure JustRead (s : Scanner) (c : Char) : Prop where
  pos : 0 < s.position
  char : s.source.toList[s.position - 1]? = some c

theorem JustRead.drop {s : Scanner} {c : Char} (h : s.JustRead c) :
    s.source.toList.drop (s.position - 1) = c :: s.ahead := by
  obtain ⟨hlt, hc⟩ := List.getElem?_eq_some_iff.mp h.char
  rw [List.drop_eq_getElem_cons hlt, hc, Nat.sub_add_cancel h.pos, ahead]

/-- The scanner stands in its source or at its end. -/
def Inside (s : Scanner) : Prop := s.position ≤ s.source.length

theorem JustRead.inside {s : Scanner} {c : Char} (h : s.JustRead c) : s.Inside :=
  Nat.le_of_pred_lt (List.getElem?_eq_some_iff.mp h.char).1

theorem justRead_next {s : Scanner} {c : Char} (h : s.source.toList[s.position]? = some c) :
    s.next.2.JustRead c ∧ s.ahead = c :: s.next.2.ahead := by
  have hnext : s.next.2 = { s with position := s.position + 1 } := by rw [next, h]
  have hread : s.next.2.JustRead c := by
    rw [hnext]
    exact ⟨Nat.succ_pos _, h⟩
  refine ⟨hread, ?_⟩
  rw [← hread.drop, hnext]
  rfl

theorem JustRead.special {s : Scanner} (h : s.JustRead specialMark) :
    s.special =
      (if isValidSpecial (String.ofList (specialMark :: s.ahead.takeWhile continuesSpecial)) then
        .ok (String.ofList (specialMark :: s.ahead.takeWhile continuesSpecial))
       else .error (String.ofList (specialMark :: s.ahead.takeWhile continuesSpecial)),
       { s with position := s.position + (s.ahead.takeWhile continuesSpecial).length }) := by
  have hpos := h.pos
  have hlen : s.position + (s.ahead.takeWhile continuesSpecial).length - (s.position - 1) =
      (s.ahead.takeWhile continuesSpecial).length + 1 := by omega
  have htake : (specialMark :: s.ahead).take ((s.ahead.takeWhile continuesSpecial).length + 1) =
      specialMark :: s.ahead.takeWhile continuesSpecial := by
    rw [List.take_succ_cons]
    exact congrArg _ (List.prefix_iff_eq_take.mp (List.takeWhile_prefix _)).symm
  have hahead : s.source.toList.drop s.position = s.ahead := rfl
  rw [Scanner.special]
  simp only [hahead, if_neg (Nat.ne_of_gt hpos), h.drop, hlen, htake]

/-- What reading comes to from where the scanner is, the words finished so far included. -/
def outlook (s : Scanner) (w : List Char) : Scan := (scan (w ++ s.ahead)).after s.tokens

/-- The scanner once its source has been read and the reading has come to this. -/
def spent (source : String) (r : Scan) : Scanner :=
  ⟨source, source.length - r.rest.length, [], r.tokens⟩

theorem scan_finished {s : Scanner} {w cs : List Char} {c : Char} (h : s.Holds w)
    (hn : isPlain c = false) :
    (scan (w ++ c :: cs)).after s.tokens = (scan (c :: cs)).after s.flush.tokens := by
  have hstop : ∀ d, (c :: cs).head? = some d → isPlain d = false := by
    rintro d ⟨⟩
    exact hn
  rw [scan_plain h.plain hstop, Scan.after_after, h.flush]

/-- What a turn of the scanner comes to, when reading comes to `r`: it goes on to `r`, or it has
come to the failure that `r` is. -/
inductive Follows (source : String) (r : Scan) : Except String Unit × Scanner → Prop
  | onward {t : Scanner} {w : List Char} : t.Holds w → t.Inside → t.source = source →
      t.outlook w = r → Follows source r (.ok (), t)
  | refused {t : Scanner} {word : String} : r.invalid = some word → t = spent source r →
      Follows source r (.error word, t)

theorem drop_length_takeWhile (p : Char → Bool) (cs : List Char) :
    cs.drop (cs.takeWhile p).length = cs.dropWhile p := by
  have h : (cs.takeWhile p ++ cs.dropWhile p).drop (cs.takeWhile p).length = cs.dropWhile p :=
    List.drop_left
  rwa [List.takeWhile_append_dropWhile] at h

/-- The special word that a mark opens is read whole and checked. -/
theorem follows_addSpecial {s : Scanner} (hc : s.JustRead specialMark) (hp : s.pending = []) :
    Follows s.source ((scan (specialMark :: s.ahead)).after s.tokens) s.addSpecial := by
  have hinside : s.position ≤ s.source.length := hc.inside
  have hlen : s.ahead.length = s.source.length - s.position := by
    rw [ahead, List.length_drop, String.length_toList]
  have hrun : (s.ahead.takeWhile continuesSpecial).length +
      (s.ahead.dropWhile continuesSpecial).length = s.ahead.length := by
    rw [← List.length_append, List.takeWhile_append_dropWhile]
  rw [addSpecial, hc.special, scan, if_neg (by decide), if_pos rfl]
  by_cases hv : isValidSpecial
      (String.ofList (specialMark :: s.ahead.takeWhile continuesSpecial)) = true
  · have hahead : s.source.toList.drop
        (s.position + (s.ahead.takeWhile continuesSpecial).length) =
          s.ahead.dropWhile continuesSpecial := by
      rw [← List.drop_drop]
      exact drop_length_takeWhile continuesSpecial s.ahead
    simp only [if_pos hv]
    refine .onward (holds_nil hp) ?_ rfl ?_
    · show s.position + (s.ahead.takeWhile continuesSpecial).length ≤ s.source.length
      omega
    · rw [Scan.after_after, outlook]
      exact congrArg (fun cs => (scan cs).after _) hahead
  · have hposition : s.position + (s.ahead.takeWhile continuesSpecial).length =
        s.source.length - (s.ahead.dropWhile continuesSpecial).length := by omega
    simp only [if_neg hv]
    refine .refused rfl ?_
    simp only [spent, Scan.after, List.append_nil, ← hposition, hp]

/-- A turn of the scanner does not change what reading comes to. -/
theorem follows_digest {s : Scanner} {w : List Char} {c : Char} (h : s.Holds w)
    (hc : s.JustRead c) :
    Follows s.source ((scan (w ++ c :: s.ahead)).after s.tokens) (digest c s) := by
  have hpending : s.flush.pending = [] := by rw [h.flush]
  rw [digest]
  split
  · rename_i hsep
    have hplain : isPlain c = false := by simp [isPlain, hsep]
    refine .onward (holds_nil hpending) ?_ (flush_source s) ?_
    · rw [h.flush]
      exact hc.inside
    · rw [scan_finished h hplain, scan, if_pos hsep, outlook, h.flush]
      rfl
  · rename_i hsep
    split
    · rename_i hmark
      subst hmark
      have hflushed : s.flush.JustRead specialMark := by
        rw [h.flush]
        exact ⟨hc.pos, hc.char⟩
      have hahead : s.flush.ahead = s.ahead := by rw [h.flush]; rfl
      rw [scan_finished h (by decide), ← hahead, ← flush_source]
      exact follows_addSpecial hflushed hpending
    · rename_i hmark
      have hplain : isPlain c = true := isPlain_iff.mpr ⟨by simpa using hsep, hmark⟩
      refine .onward (h.push hplain) hc.inside rfl ?_
      rw [outlook, List.append_assoc]
      rfl

theorem follows_next {s : Scanner} {w : List Char} {c : Char} (h : s.Holds w)
    (hc : s.source.toList[s.position]? = some c) :
    Follows s.source (s.outlook w) (digest c s.next.2) := by
  obtain ⟨hread, hahead⟩ := justRead_next hc
  have hnext : s.next.2 = { s with position := s.position + 1 } := by rw [next, hc]
  have hholds : s.next.2.Holds w := by
    rw [hnext]
    exact ⟨h.pending, h.plain⟩
  have hfollows := follows_digest hholds hread
  rw [← hahead] at hfollows
  rw [hnext] at hfollows ⊢
  exact hfollows

/-- What reading on does is what reading the text ahead at once comes to. -/
theorem readOn_eq {s : Scanner} {w : List Char} (h : s.Holds w) (hs : s.Inside) :
    s.readOn = ((s.outlook w).verdict, spent s.source (s.outlook w)) := by
  fun_induction readOn s generalizing w with
  | case1 s hc =>
    have hlen : s.source.length ≤ s.position := List.getElem?_eq_none_iff.mp hc
    have hahead : s.ahead = [] := List.drop_eq_nil_of_le hlen
    have hend : s.position = s.source.length := Nat.le_antisymm hs hlen
    have hscan : scan (w ++ []) = (scan []).after (wordOf w) := scan_plain h.plain nofun
    rw [h.flush, outlook, hahead, hscan, scan]
    simp [spent, Scan.verdict, Scan.after, hend]
  | case2 s c hc after hd ih =>
    have hturn := follows_next h hc
    rw [hd] at hturn
    cases hturn with
    | onward hu hin hsource hout => rw [ih hu hin, hout, hsource]
  | case3 s c hc word after hd =>
    have hturn := follows_next h hc
    rw [hd] at hturn
    cases hturn with
    | refused hinvalid hafter => rw [Scan.verdict, hinvalid, hafter]

/-- Reading a source whole is reading its text at once, and it leaves the scanner spent. -/
theorem tokenize_eq (s : Scanner) (source : String) :
    s.tokenize source = (Token.tokenize source, spent source (scan source.toList)) := by
  have hread := readOn_eq (s := ⟨source, 0, [], []⟩) (holds_nil rfl) (Nat.zero_le _)
  have hout : outlook ⟨source, 0, [], []⟩ [] = scan source.toList := rfl
  rw [hout, Scan.verdict] at hread
  rw [tokenize, hread, Token.tokenize]
  cases (scan source.toList).invalid with
  | none => rfl
  | some word => rfl

theorem scan_of_error {source t : String} (h : Token.tokenize source = .error t) :
    (scan source.toList).invalid = some t := by
  rw [Token.tokenize] at h
  split at h
  · rename_i hi
    cases h
    exact hi
  · cases h

theorem scan_of_ok {source : String} {T : List String} (h : Token.tokenize source = .ok T) :
    (scan source.toList).invalid = none ∧ (scan source.toList).tokens = T := by
  rw [Token.tokenize] at h
  split at h
  · cases h
  · rename_i hi
    cases h
    exact ⟨hi, rfl⟩

theorem parts_of_append {cs a b rest : List Char} (h : cs = a ++ (b ++ rest)) :
    cs.take a.length = a ∧ (cs.take (a.length + b.length)).drop a.length = b ∧
      cs.drop (a.length + b.length) = rest ∧
      cs.length = a.length + b.length + rest.length := by
  subst h
  refine ⟨List.take_left, ?_, ?_, ?_⟩
  · rw [List.drop_take, Nat.add_sub_cancel_left, List.drop_left, List.take_left]
  · rw [← List.drop_drop, List.drop_left, List.drop_left]
  · rw [List.length_append, List.length_append, Nat.add_assoc]

/-- A reading that fails leaves the scanner behind the special word that is not valid, with no word
being built and with the words of the text before that one. A reading that does not fail leaves it
at the end of the source. Whatever a scanner holds, its next reading is that of a fresh one. -/
theorem tokenize_leaves (s : Scanner) (source : String) :
    (∀ t, (s.tokenize source).1 = .error t → ∃ position tokens,
      (s.tokenize source).2 = ⟨source, position, [], tokens⟩ ∧
      t.length ≤ position ∧ position ≤ source.length ∧
      (source.toList.take position).drop (position - t.length) = t.toList ∧
      t.toList.head? = some '#' ∧
      (position = source.length ∨
        ∃ c, source.toList[position]? = some c ∧ continuesSpecial c = false) ∧
      (fresh.tokenize (String.ofList (source.toList.take (position - t.length)))).1 = .ok tokens) ∧
    (∀ T, (s.tokenize source).1 = .ok T →
      (s.tokenize source).2 = ⟨source, source.length, [], T⟩) ∧
    ∀ next, (s.tokenize source).2.tokenize next = fresh.tokenize next ∧
      s.tokenize next = fresh.tokenize next ∧ (fresh.tokenize next).1 = Token.tokenize next := by
  have again (s : Scanner) (next : String) : s.tokenize next = fresh.tokenize next := by
    rw [tokenize_eq, tokenize_eq]
  refine ⟨fun t ht => ?_, fun T hT => ?_,
    fun next => ⟨again _ next, again s next, by rw [tokenize_eq]⟩⟩
  · rw [tokenize_eq] at ht
    obtain ⟨before, hs, hb, hm, hstop⟩ := scan_refused (scan_of_error ht)
    obtain ⟨hbefore, hword, hafter, hlen⟩ := parts_of_append hs
    simp only [String.length_toList] at hword hafter hlen
    have hposition : source.length - (scan source.toList).rest.length =
        before.length + t.length := by omega
    refine ⟨before.length + t.length, (scan source.toList).tokens, ?_, by omega, by omega, ?_, hm,
      ?_, ?_⟩
    · rw [tokenize_eq, spent, hposition]
    · rw [Nat.add_sub_cancel, hword]
    · cases hrest : (scan source.toList).rest with
      | nil =>
        left
        rw [hlen, hrest, List.length_nil, Nat.add_zero]
      | cons c rest =>
        right
        refine ⟨c, ?_, hstop c (by rw [hrest]; rfl)⟩
        rw [← List.head?_drop, hafter, hrest]
        rfl
    · rw [Nat.add_sub_cancel, hbefore, tokenize_eq, Token.tokenize, String.toList_ofList, hb]
  · rw [tokenize_eq] at hT ⊢
    obtain ⟨hi, htokens⟩ := scan_of_ok hT
    rw [spent, rest_scan hi, htokens]
    rfl

/-- A scanner that was left in the middle of a source after a reading that failed. -/
def untidy : Scanner := ((fresh.tokenize "a #bad b").2.load "#HAI #").next.2.push "hai"

/-- The scanner stops behind the word that is not valid, and reads another source as if nothing had
happened. -/
theorem tokenize_leaves_untidy :
    (untidy.tokenize "a#HAI #nope!b").1 = .error "#nope" ∧
    (∃ position tokens,
      (untidy.tokenize "a#HAI #nope!b").2 = ⟨"a#HAI #nope!b", position, [], tokens⟩ ∧
      ("a#HAI #nope!b".toList.take position).drop (position - 5) = "#nope".toList ∧
      (fresh.tokenize (String.ofList ("a#HAI #nope!b".toList.take (position - 5)))).1 =
        .ok tokens) ∧
    (untidy.tokenize "#mkay").1 = .ok ["#mkay"] ∧
    (untidy.tokenize "#mkay").2 = ⟨"#mkay", 5, [], ["#mkay"]⟩ := by
  have hrefused : (untidy.tokenize "a#HAI #nope!b").1 = .error "#nope" := by
    rw [tokenize_eq]
    exact tokenize_error_iff.mpr
      ⟨["#HAI"], [], by decide, List.forall_mem_singleton.mpr (by decide), by decide⟩
  have hread : (untidy.tokenize "#mkay").1 = .ok ["#mkay"] := by
    have hlaid : LaidOut none ["#mkay"] "#mkay".toList :=
      .word (w := []) nofun (Or.inr (by decide)) nofun (.gap nofun)
    rw [tokenize_eq]
    exact tokenize_ok_iff.mpr hlaid
  obtain ⟨position, tokens, hstate, -, -, hword, -, -, htokens⟩ :=
    (tokenize_leaves untidy "a#HAI #nope!b").1 _ hrefused
  exact ⟨hrefused, ⟨position, tokens, hstate, hword, htokens⟩, hread,
    (tokenize_leaves untidy "#mkay").2.1 _ hread⟩

end Scanner

end Shoutmark.Token
