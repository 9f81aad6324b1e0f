import Shoutmark.Proofs.Reading.Calls
import Shoutmark.Proofs.Token.Layout

/-! A cursor as a stream over its tokens. Whatever is done with it, where it stands hangs only on how
often it was advanced, and the token at hand is the one it has come to unless one was put in its
place since. The tokens of a source are never empty, so an empty token at hand means that all of
them are read. -/

namespace Shoutmark.Cursor

/-- What may be done with a cursor. -/
inductive Operation
  | current
  | advance
  | set (token : String)
  deriving DecidableEq, Repr

namespace Operation

def next (c : Cursor) : Operation → Cursor
  | current => c
  | advance => c.advance
  | set token => c.set token

/-- What an operation answers: the token that is at hand after it. A replacement has no answer. -/
def answer (c : Cursor) : Operation → Option String
  | current => some c.token
  | advance => some c.advance.token
  | set _ => none

/-- The token that is put in the place of the one at hand. -/
def replacement? : Operation → Option String
  | set token => some token
  | _ => none

end Operation

def perform (c : Cursor) (ops : List Operation) : Cursor := ops.foldl Operation.next c

def answers (c : Cursor) : List Operation → List (Option String)
  | [] => []
  | op :: ops => op.answer c :: (op.next c).answers ops

/-- How many tokens are passed. -/
def advances (ops : List Operation) : Nat := ops.count .advance

/-- The token that was put in last, unless the cursor was advanced since. -/
def replaced? (ops : List Operation) : Option String :=
  (ops.reverse.takeWhile (· != .advance)).findSome? Operation.replacement?

theorem perform_append (c : Cursor) (ops ops' : List Operation) :
    c.perform (ops ++ ops') = (c.perform ops).perform ops' :=
  List.foldl_append

theorem perform_concat (c : Cursor) (ops : List Operation) (op : Operation) :
    c.perform (ops ++ [op]) = op.next (c.perform ops) :=
  perform_append c ops [op]

/-! ### Where a cursor stands -/

/-- The cursor that stands on the token of this number, or past the last one. -/
def spot (tokens : List String) (n : Nat) : Cursor :=
  ⟨tokens.toArray, min n (tokens.length - 1), tokens[n]?.getD ""⟩

theorem start_eq_spot (tokens : List String) : start tokens = spot tokens 0 := by
  rw [start, spot, Nat.zero_min, List.headD_eq_head?_getD, List.head?_eq_getElem?]

/-- Where an advance leads to does not hang on the token at hand. -/
theorem advance_spot (tokens : List String) (n : Nat) (token : String) :
    ((spot tokens n).set token).advance = spot tokens (n + 1) := by
  by_cases hn : n + 1 < tokens.length
  · have hp : min n (tokens.length - 1) = n := by omega
    have hp' : min (n + 1) (tokens.length - 1) = n + 1 := by omega
    have ht : tokens.toArray[n + 1]? = some tokens[n + 1] := by simp [hn]
    simp only [advance, set, spot, hp, hp', ht, List.getElem?_eq_getElem hn, Option.getD_some]
  · have hp : min (n + 1) (tokens.length - 1) = min n (tokens.length - 1) := by omega
    have hlast : tokens.length ≤ min n (tokens.length - 1) + 1 := by omega
    have ht : tokens.toArray[min n (tokens.length - 1) + 1]? = none := by simp [hlast]
    have hend : tokens[n + 1]? = none := List.getElem?_eq_none (by omega)
    simp only [advance, set, spot, hp, ht, hend, Option.getD_none]

theorem skip_spot (tokens : List String) (m n : Nat) :
    (spot tokens m).skip n = spot tokens (m + n) := by
  induction n generalizing m with
  | zero => rfl
  | succ n ih =>
    have ha : (spot tokens m).advance = spot tokens (m + 1) :=
      advance_spot tokens m (spot tokens m).token
    rw [skip, ha, ih, Nat.add_assoc, Nat.add_comm 1]

theorem skip_start (tokens : List String) (n : Nat) : (start tokens).skip n = spot tokens n := by
  rw [start_eq_spot, skip_spot, Nat.zero_add]

theorem replaced?_advance (ops : List Operation) : replaced? (ops ++ [.advance]) = none := by
  rw [replaced?, List.reverse_concat, List.takeWhile_cons_of_neg (by decide)]
  rfl

theorem replaced?_current (ops : List Operation) :
    replaced? (ops ++ [.current]) = replaced? ops := by
  rw [replaced?, List.reverse_concat, List.takeWhile_cons_of_pos (by decide)]
  rfl

theorem replaced?_set (ops : List Operation) (token : String) :
    replaced? (ops ++ [.set token]) = some token := by
  rw [replaced?, List.reverse_concat, List.takeWhile_cons_of_pos rfl]
  rfl

/-- A cursor stands on the token that its advances lead to, and shows the one put in its place if
there is one. -/
theorem perform_start (tokens : List String) (ops : List Operation) :
    (start tokens).perform ops =
      (spot tokens (advances ops)).set
        ((replaced? ops).getD (spot tokens (advances ops)).token) := by
  induction ops using List.reverseRecOn with
  | nil => exact start_eq_spot tokens
  | append_singleton ops op ih =>
    rw [perform_concat, ih]
    cases op with
    | current =>
      have ha : advances (ops ++ [.current]) = advances ops := by simp [advances]
      rw [replaced?_current, ha]
      rfl
    | advance =>
      have ha : advances (ops ++ [.advance]) = advances ops + 1 := by simp [advances]
      rw [replaced?_advance, ha]
      exact advance_spot tokens _ _
    | set token =>
      have ha : advances (ops ++ [.set token]) = advances ops := by simp [advances]
      rw [replaced?_set, ha]
      rfl

/-! ### What a replacement reaches -/

theorem advance_congr {c c' : Cursor} (ht : c'.tokens = c.tokens)
    (hp : c'.position = c.position) : c'.advance = c.advance := by
  simp only [advance, ht, hp]

theorem next_sameSpot (op : Operation) {c c' : Cursor} (ht : c'.tokens = c.tokens)
    (hp : c'.position = c.position) :
    (op.next c').tokens = (op.next c).tokens ∧ (op.next c').position = (op.next c).position := by
  cases op with
  | current => exact ⟨ht, hp⟩
  | advance =>
    rw [Operation.next, Operation.next, advance_congr ht hp]
    exact ⟨rfl, rfl⟩
  | set token => exact ⟨ht, hp⟩

/-- Two cursors that differ only in the token at hand are the same once both are advanced. -/
theorem perform_sameSpot (ops : List Operation) {c c' : Cursor} (ht : c'.tokens = c.tokens)
    (hp : c'.position = c.position) :
    c'.perform (ops ++ [.advance]) = c.perform (ops ++ [.advance]) := by
  induction ops generalizing c c' with
  | nil => exact advance_congr ht hp
  | cons op ops ih =>
    obtain ⟨ht', hp'⟩ := next_sameSpot op ht hp
    exact ih ht' hp'

theorem perform_set_advance (c : Cursor) (token : String) (before between : List Operation) :
    c.perform (before ++ .set token :: (between ++ [.advance])) =
      c.perform (before ++ (between ++ [.advance])) := by
  rw [perform_append, perform_append c before]
  exact perform_sameSpot between rfl rfl

/-- So nothing that is answered from there on tells of it. -/
theorem answers_set_advance (c : Cursor) (token : String)
    (before between after : List Operation) :
    (c.perform (before ++ .set token :: between)).answers (.advance :: after) =
      (c.perform (before ++ between)).answers (.advance :: after) := by
  have h := perform_set_advance c token before between
  rw [← List.cons_append, ← List.append_assoc, ← List.append_assoc, perform_concat,
    perform_concat] at h
  have ha : (c.perform (before ++ .set token :: between)).advance =
      (c.perform (before ++ between)).advance := h
  rw [answers, answers, Operation.next, Operation.next, Operation.answer, Operation.answer, ha]

/-! ### The end of the tokens -/

/-- Where no token is empty, an empty token at hand is the end of the tokens. -/
theorem exhausted_spot {tokens : List String} (h : ∀ t ∈ tokens, t ≠ "") (n : Nat) :
    (spot tokens n).exhausted = true ↔ tokens.length ≤ n := by
  rw [exhausted_iff]
  show tokens[n]?.getD "" = "" ↔ _
  by_cases hn : n < tokens.length
  · rw [List.getElem?_eq_getElem hn, Option.getD_some]
    exact iff_of_false (h _ (List.getElem_mem hn)) (Nat.not_le.mpr hn)
  · rw [List.getElem?_eq_none (Nat.not_lt.mp hn)]
    exact iff_of_true rfl (Nat.not_lt.mp hn)

end Shoutmark.Cursor

namespace Shoutmark.Reading
open Shoutmark.Grammar

variable {lists : Bool}

theorem ne_empty_of_tokenize {source : String} {tokens : List String}
    (h : Token.tokenize source = .ok tokens) : ∀ t ∈ tokens, t ≠ "" := by
  intro t ht he
  have hw := (Token.tokenize_ok_iff.mp h).isWord t ht
  rw [he] at hw
  exact hw.toList_ne_nil rfl

/-- A point of the run of a program from a draft on: so many tokens are passed, this is open, and
this is the draft. -/
inductive Point (lists : Bool) (d₀ : Draft) : Nat → Place → Draft → Prop
  | start : Point lists d₀ 0 .start d₀
  | next {n : Nat} {q q' : Place} {d : Draft} {s : Sheet} : Point lists d₀ n q d →
      step lists q d.cursor.token d.sheet = .going q' s →
      Point lists d₀ (n + 1) q' (s.draft d.cursor.advance)

/-- What is still done at a point of a run is the rest of that run. -/
theorem Point.resume_eq_program {d₀ d : Draft} {n : Nat} {q : Place} (h : Point lists d₀ n q d) :
    resume lists q d = program lists d₀ := by
  induction h with
  | start => rw [program_eq_resume]
  | @next n q q' d s _ hs ih =>
    have hr : resume lists q d = proceed lists d.cursor (step lists q d.cursor.token d.sheet) :=
      resume_eq q d
    rw [hs, proceed] at hr
    exact hr.symm.trans ih

theorem Point.cursor_eq {d₀ d : Draft} {n : Nat} {q : Place} (h : Point lists d₀ n q d) :
    d.cursor = d₀.cursor.skip n := by
  induction h with
  | start => rfl
  | next _ _ ih => rw [Cursor.skip_add, ← ih, Draft.cursor_draft, Cursor.skip, Cursor.skip]

theorem further_after {tokens : List String} {history : List Call}
    (h : ∀ token, Call.setToken token ∉ history) :
    Further (Cursor.start tokens) (after lists tokens history).cursor := by
  induction history using List.reverseRecOn with
  | nil => exact .refl _
  | append_singleton history c ih =>
    have hc (token : String) : c ≠ .setToken token :=
      fun he => h token (he ▸ List.mem_append_right history List.mem_cons_self)
    rw [after_concat]
    exact (ih fun token ht => h token (List.mem_append_left _ ht)).trans
      (Moves.further (moves_run hc _))

/-- A cursor stands on the token that its advances lead to. A token put in its place is at hand up to
the next advance and has no bearing on anything after it. So while a source is read, at every point
of the reading and after any calls, an empty token is at hand exactly if all tokens are passed. -/
theorem cursor_streams :
    (∀ (tokens : List String) (ops : List Cursor.Operation),
      ((Cursor.start tokens).perform ops).position =
        min (Cursor.advances ops) (tokens.length - 1) ∧
      Cursor.Operation.current.answer ((Cursor.start tokens).perform ops) =
        some ((Cursor.replaced? ops).getD (tokens[Cursor.advances ops]?.getD ""))) ∧
    (∀ (c : Cursor) (token : String) (before between after : List Cursor.Operation),
      c.perform (before ++ .set token :: (between ++ [.advance])) =
        c.perform (before ++ (between ++ [.advance])) ∧
      (c.perform (before ++ .set token :: between)).answers (.advance :: after) =
        (c.perform (before ++ between)).answers (.advance :: after)) ∧
    ∀ (source : String) (tokens : List String), Token.tokenize source = .ok tokens →
      (∀ t ∈ tokens, t ≠ "") ∧
      (∀ (lists : Bool) (n : Nat) (q : Place) (d : Draft), Point lists (.start tokens) n q d →
        resume lists q d = program lists (.start tokens) ∧
        d.cursor = (Cursor.start tokens).skip n ∧
        (d.cursor.exhausted = true ↔ tokens.length ≤ n)) ∧
      ∀ (lists : Bool) (history : List Call), (∀ token, Call.setToken token ∉ history) →
        ∃ n, (after lists tokens history).cursor = (Cursor.start tokens).skip n ∧
          ((after lists tokens history).cursor.exhausted = true ↔ tokens.length ≤ n) := by
  refine ⟨fun tokens ops => ?_, fun c token before between after => ?_, fun source tokens ht => ?_⟩
  · rw [Cursor.perform_start]
    exact ⟨rfl, rfl⟩
  · exact ⟨Cursor.perform_set_advance c token before between,
      Cursor.answers_set_advance c token before between after⟩
  · have hne : ∀ t ∈ tokens, t ≠ "" := ne_empty_of_tokenize ht
    have hend (n : Nat) : ((Cursor.start tokens).skip n).exhausted = true ↔ tokens.length ≤ n := by
      rw [Cursor.skip_start]
      exact Cursor.exhausted_spot hne n
    refine ⟨hne, fun lists n q d hd => ?_, fun lists history hset => ?_⟩
    · have hc : d.cursor = (Cursor.start tokens).skip n := hd.cursor_eq
      exact ⟨hd.resume_eq_program, hc, hc ▸ hend n⟩
    · obtain ⟨n, hc⟩ : Further (Cursor.start tokens) (after lists tokens history).cursor :=
        further_after hset
      exact ⟨n, hc, hc ▸ hend n⟩

/-- A source that is cut short: its second point has no token at hand, and its run ends with both
tokens passed. -/
theorem cursor_streams_cut :
    (∃ q d, Point false (.start ["#HAI", "a"]) 2 q d ∧ d.cursor.exhausted = true ∧
      resume false q d = program false (.start ["#HAI", "a"])) ∧
    ∃ n, (after false ["#HAI", "a"] [.program]).cursor = (Cursor.start ["#HAI", "a"]).skip n ∧
      2 ≤ n := by
  have hT : Token.tokenize "#HAI a" = .ok ["#HAI", "a"] :=
    Token.tokenize_ok_iff.mpr (.word (w := []) (nofun) (Or.inr (by decide)) (nofun)
      (.word (w := [' ']) (by decide) (Or.inl (by decide)) (nofun) (.gap (nofun))))
  obtain ⟨-, hpoint, hcalls⟩ := cursor_streams.2.2 _ _ hT
  constructor
  · have hd : Point false (.start ["#HAI", "a"]) 2 (.forms .body) _ := .next (.next .start rfl) rfl
    obtain ⟨hrest, -, hend⟩ := hpoint _ _ _ _ hd
    exact ⟨_, _, hd, hend.mpr (by decide), hrest⟩
  · have hg : feed false .fresh ["#HAI", "a"] = .going (.forms .body) _ := rfl
    obtain ⟨s, c, hp, hc⟩ := program_going hg
    have hafter : after false ["#HAI", "a"] [.program] = s.draft c := congrArg draftOf hp
    obtain ⟨n, hn, hend⟩ := hcalls false [.program] (by simp)
    rw [hafter, Draft.cursor_draft, Cursor.exhausted_iff] at hend
    exact ⟨n, hn, hend.mp hc⟩

end Shoutmark.Reading
