import Shoutmark.Proofs.Reading.Calls

/-! Every loop of the productions gets on, on every draft: with empty tokens between others, and with
any token put in the place of the one at hand. What is left to read never grows; a production that
asks for a word leaves less of it, and so does every turn of a loop. So no loop takes more turns than
there is left to read. -/

namespace Shoutmark.Cursor

theorem remaining_skip_le (c : Cursor) (n : Nat) : (c.skip n).remaining ≤ c.remaining := by
  induction n generalizing c with
  | zero => exact Nat.le_refl _
  | succ n ih => exact Nat.le_trans (ih c.advance) c.remaining_advance_le

end Shoutmark.Cursor

namespace Shoutmark.Reading
open Shoutmark.Grammar

variable {lists : Bool}

/-! ### Calls -/

/-- The call asks for a word before it does anything else. -/
def Call.asks : Call → Bool
  | matchWord word | styled word _ | media word => word != ""
  | comment | title | block | paragraph | paragraphContent | listContent | listItem | inline | bold
  | italics | newline | audio | video | text | defineVariable | useVariable => true
  | look | advance | setToken _ | collect _ | write _ | program | head | body => false

theorem keeps_run {c : Call} (h : ∀ token, c ≠ .setToken token) : Keeps (c.run lists) := by
  intro d
  obtain ⟨n, hn⟩ : Further d.cursor (draftOf (c.run lists d)).cursor := Moves.further (moves_run h d)
  unfold Draft.remaining
  rw [hn]
  exact d.cursor.remaining_skip_le n

theorem consumes_run {c : Call} (h : c.asks = true) : Consumes (c.run lists) := by
  cases c with
  | matchWord word => exact consumes_matchWord (by simpa [Call.asks] using h)
  | styled word tag => exact consumes_styled (by simpa [Call.asks] using h) tag
  | media word =>
    exact (consumes_media (by simpa [Call.asks] using h)).bind fun _ => keeps_pure _
  | comment => exact consumes_comment
  | title => exact consumes_title
  | block => exact consumes_block lists
  | paragraph => exact consumes_paragraph
  | paragraphContent => exact consumes_paragraphContent
  | listContent => exact consumes_listContent
  | listItem => exact consumes_listItem
  | inline => exact consumes_inline
  | bold => exact consumes_bold
  | italics => exact consumes_italics
  | newline => exact consumes_newline
  | audio => exact consumes_audio
  | video => exact consumes_video
  | text => exact consumes_text
  | defineVariable => exact consumes_defineVariable
  | useVariable => exact consumes_useVariable
  | _ => cases h

/-! ### Loops -/

/-- The loops of the productions. -/
inductive Loop
  /-- Tokens up to a word. -/
  | gathering (word : String)
  | comments
  | headItems
  | bodyItems
  | paragraphForms
  | listItems
  | itemForms
  deriving DecidableEq, Repr

namespace Loop

def goes : Loop → Draft → Bool
  | gathering word, d => !(Text.sameWord d.cursor.token word || d.cursor.exhausted)
  | comments, d => d.at? .obtw
  | headItems, d => d.before? .oic
  | bodyItems, d => d.before? .kthxbye
  | paragraphForms, d => d.before? .oic
  | listItems, d => d.at? .gimmeh
  | itemForms, d => d.before? .mkay

def turn (lists : Bool) : Loop → Production Unit
  | gathering _ => advance
  | comments => comment
  | headItems => headItem
  | bodyItems => bodyItem lists
  | paragraphForms => inline
  | listItems => listItem
  | itemForms => inline

theorem token_ne_empty {l : Loop} {d : Draft} (h : l.goes d = true) : d.cursor.token ≠ "" := by
  have at_word {k : Keyword} (hk : d.at? k = true) : d.cursor.token ≠ "" := by
    intro he
    have hw := Draft.at?_iff.mp hk
    rw [he, Keyword.ofWord?_empty] at hw
    cases hw
  cases l with
  | gathering word =>
    intro he
    simp [goes, he, Cursor.exhausted] at h
  | comments => exact at_word h
  | headItems => exact Draft.token_ne_empty_of_before? h
  | bodyItems => exact Draft.token_ne_empty_of_before? h
  | paragraphForms => exact Draft.token_ne_empty_of_before? h
  | listItems => exact at_word h
  | itemForms => exact Draft.token_ne_empty_of_before? h

/-- Every turn leaves less to read. -/
theorem consumes_turn (l : Loop) : ConsumesIf l.goes (l.turn lists) := by
  intro d _ d' hg ht
  cases l with
  | gathering word =>
    cases ht
    exact Draft.remaining_advance_lt (token_ne_empty hg)
  | comments => exact consumes_comment _ _ _ ht
  | headItems => exact consumes_headItem .oic _ _ _ hg ht
  | bodyItems => exact consumes_bodyItem lists _ _ _ ht
  | paragraphForms => exact consumes_inline _ _ _ ht
  | listItems => exact consumes_listItem _ _ _ ht
  | itemForms => exact consumes_inline _ _ _ ht

def run (lists : Bool) (l : Loop) : Production Unit :=
  repeatWhile l.goes (l.turn lists) l.consumes_turn

/-- So many turns of the loop lead from a draft to its end. A turn that ends in a fault counts. -/
inductive Turns (lists : Bool) (l : Loop) :
    Nat → Draft → EStateM.Result Fault Draft Unit → Prop
  | done {d : Draft} : l.goes d = false → Turns lists l 0 d (.ok () d)
  | fault {d d' : Draft} {f : Fault} : l.goes d = true → l.turn lists d = .error f d' →
      Turns lists l 1 d (.error f d')
  | turn {n : Nat} {d d' : Draft} {r : EStateM.Result Fault Draft Unit} : l.goes d = true →
      l.turn lists d = .ok () d' → Turns lists l n d' r → Turns lists l (n + 1) d r

theorem exists_turns (l : Loop) (d : Draft) : ∃ n, Turns lists l n d (l.run lists d) := by
  unfold run
  fun_induction repeatWhile l.goes (l.turn lists) l.consumes_turn d with
  | case1 d hg d' ht ih =>
    obtain ⟨n, hn⟩ := ih
    exact ⟨n + 1, .turn hg ht hn⟩
  | case2 d hg f d' ht => exact ⟨1, .fault hg ht⟩
  | case3 d hg => exact ⟨0, .done (by simpa using hg)⟩

theorem Turns.run_eq {l : Loop} {n : Nat} {d : Draft} {r : EStateM.Result Fault Draft Unit}
    (h : Turns lists l n d r) : l.run lists d = r := by
  induction h with
  | done hg => exact repeatWhile_done hg
  | fault hg ht => exact repeatWhile_fault hg ht
  | turn hg ht _ ih => exact (repeatWhile_turn hg ht).trans ih

/-- Each turn takes from what is left to read, so there are no more turns than that. -/
theorem Turns.le_remaining {l : Loop} {n : Nat} {d : Draft} {r : EStateM.Result Fault Draft Unit}
    (h : Turns lists l n d r) : n ≤ d.remaining := by
  induction h with
  | done _ => exact Nat.zero_le _
  | @fault d _ _ hg _ =>
    have hlt : d.advance.remaining < d.remaining := Draft.remaining_advance_lt (token_ne_empty hg)
    omega
  | @turn n d d' _ hg ht _ ih =>
    have hlt : d'.remaining < d.remaining := l.consumes_turn d () d' hg ht
    omega

theorem run_gathering (word : String) :
    (do let _ ← collect word : Production Unit) = (gathering word).run lists := by
  funext d
  fun_induction collect word d with
  | case1 d hw =>
    have hc : collect word d = .ok [] d := by rw [collect, if_pos hw]
    have hg : (gathering word).goes d = false := by rw [goes, hw]; rfl
    exact (bind_ok hc).trans (repeatWhile_done hg).symm
  | case2 d hw tokens d' hr ih =>
    have hc : collect word d = .ok (d.cursor.token :: tokens) d' := by
      rw [collect, if_neg hw, hr]
    have hg : (gathering word).goes d = true := by rw [goes, eq_false_of_ne_true hw]; rfl
    have hturn : (gathering word).run lists d = (gathering word).run lists d.advance :=
      repeatWhile_turn hg rfl
    rw [hturn, ← ih]
    exact (bind_ok hc).trans (bind_ok (f := fun _ => pure ()) hr).symm
  | case3 d hw e d' hr ih =>
    obtain ⟨words, d'', hok, -⟩ := collect_ok word d.advance
    rw [hr] at hok
    cases hok

/-- Where the loops stand. -/
structure Placed (lists : Bool) : Prop where
  gathering (word : String) :
    (do let _ ← collect word : Production Unit) = (Loop.gathering word).run lists
  comments : program lists = do
    expect .hai
    Loop.comments.run lists
    head
    body lists
    expect .kthxbye
  headItems : head = do
    if (← keyword?) = some .maek then
      expect .maek
      expect .head
      Loop.headItems.run lists
      expect .oic
  bodyItems : body lists = do
    Loop.bodyItems.run lists
    write "</body></html>"
  paragraphForms : paragraphContent = do
    expect .paragraf
    write "<p>"
    Loop.paragraphForms.run lists
    write "</p>\n"
    expect .oic
  listItems : listContent = do
    expect .list
    write "<ul>\n"
    Loop.listItems.run lists
    write "</ul>\n"
    expect .oic
  itemForms : listItem = do
    expect .gimmeh
    expect .item
    write "<li>"
    Loop.itemForms.run lists
    write "</li>\n"
    expect .mkay

theorem placed (lists : Bool) : Placed lists := ⟨run_gathering, rfl, rfl, rfl, rfl, rfl, rfl⟩

end Loop

/-- What is left to read does not grow by any call but the replacement of a token; a call that asks
for a word and gets it leaves less, and so does every turn of a loop that ends in no fault. So a
loop comes to its end, which is one, in no more turns than there is left to read when it starts. -/
theorem loops_progress (lists : Bool) :
    Loop.Placed lists ∧
    (∀ c : Call, (∀ token, c ≠ .setToken token) → Keeps (c.run lists)) ∧
    (∀ c : Call, c.asks = true → Consumes (c.run lists)) ∧
    ∀ (l : Loop) (d : Draft),
      (l.goes d = true → (∃ f d', l.turn lists d = .error f d') ∨
        ∃ d', l.turn lists d = .ok () d' ∧ d'.remaining < d.remaining) ∧
      (∃ n, l.Turns lists n d (l.run lists d)) ∧
      ∀ n r, l.Turns lists n d r → r = l.run lists d ∧ n ≤ d.remaining := by
  refine ⟨Loop.placed lists, fun c => keeps_run, fun c => consumes_run, fun l d => ⟨fun hg => ?_,
    l.exists_turns d, fun n r h => ⟨h.run_eq.symm, h.le_remaining⟩⟩⟩
  cases ht : l.turn lists d with
  | ok _ d' => exact Or.inr ⟨d', rfl, l.consumes_turn d () d' hg ht⟩
  | error f d' => exact Or.inl ⟨f, d', rfl⟩

/-- An empty token among the others, and a word that was put in the place of the first one. -/
def torn : Draft := after true ["a", "", "#MKAY", "#OIC"] [.setToken "soundz"]

/-- Sound is read from it, with the empty token for an address; and the forms of a paragraph end
after one turn, at the empty token. -/
theorem loops_progress_torn :
    (∃ d, (Call.media "SOUNDZ").run true torn = .ok () d ∧ d.remaining < torn.remaining) ∧
    (draftOf (Call.title.run true torn)).remaining ≤ torn.remaining ∧
    ∃ d, Loop.paragraphForms.Turns true 1 torn (.ok () d) ∧
      Loop.paragraphForms.run true torn = .ok () d ∧ 1 ≤ torn.remaining ∧
      ∃ d', Loop.paragraphForms.turn true torn = .ok () d' ∧ d'.remaining < torn.remaining := by
  obtain ⟨-, hkeeps, hasks, hloops⟩ := loops_progress true
  have hmedia : (Call.media "SOUNDZ").run true torn = .ok () _ := rfl
  have htext : Loop.paragraphForms.turn true torn = .ok () _ := rfl
  have hturns : Loop.paragraphForms.Turns true 1 torn _ := .turn rfl htext (.done rfl)
  obtain ⟨hturn, -, hall⟩ := hloops .paragraphForms torn
  obtain ⟨hrun, hle⟩ := hall _ _ hturns
  refine ⟨⟨_, hmedia, hasks (.media "SOUNDZ") rfl _ _ _ hmedia⟩, hkeeps .title (by simp) torn,
    _, hturns, hrun.symm, hle, ?_⟩
  rcases hturn rfl with ⟨f, d, he⟩ | h
  · rw [htext] at he
    cases he
  · exact h

end Shoutmark.Reading
