import Mathlib.Data.List.Forall2
import Shoutmark.CommandLine.Options
import Shoutmark.Named
import Shoutmark.Text.Run

/-! What a command line is read as. Options commute with the words between them, so only the order
of the options and the order of the other words count; a request never holds more than two places;
and options that are written out are read as they are. -/

namespace Shoutmark.CommandLine

variable {r r' : Request} {s : Switch} {c d : Word} {cs cs' ds : List Word}

/-! ### Words one by one -/

/-- The word is read by itself: it does not end the options and takes no value from the next. -/
def Word.isLoose : Word → Bool
  | .endOfOptions => false
  | .option s _ none => !s.takesValue
  | _ => true

def Word.isOption : Word → Bool
  | .option _ _ _ => true
  | _ => false

/-- What a word that is read by itself does to a request. -/
def Word.effect (r : Request) : Word → Except Ending Request
  | .plain text => .ok (r.addPlain text)
  | .unknown text => .ok (r.addExtra text)
  | .endOfOptions => .ok r
  | .option s _ none => r.apply s
  | .option s spelling (some a) =>
    if s.takesValue then .ok { r with inputFile := some (attachedValue a) }
    else r.applyAttached s spelling a

theorem readWords_option (hs : s.takesValue = false) (b : Bool) (r : Request) (spelling : String)
    (rest : List Word) :
    readWords b r (.option s spelling none :: rest) =
      r.apply s >>= fun r' => readWords false r' rest := by
  rw [readWords.eq_def]
  simp only [hs]
  rfl

/-- A word that is read by itself is carried out before the words behind it. -/
theorem readWords_cons (hc : c.isLoose = true) (b : Bool) (r : Request) (rest : List Word) :
    ∃ b', (c.isOption = true → b' = false) ∧
      readWords b r (c :: rest) = c.effect r >>= fun r' => readWords b' r' rest := by
  cases c with
  | plain text => exact ⟨_, nofun, rfl⟩
  | unknown text => exact ⟨false, fun _ => rfl, rfl⟩
  | endOfOptions => cases hc
  | option s spelling attached =>
    refine ⟨false, fun _ => rfl, ?_⟩
    cases attached with
    | none => exact readWords_option ((Bool.not_eq_true' _).mp hc) b r spelling rest
    | some a =>
      rw [readWords, Word.effect]
      split <;> rfl

theorem readWords_of_loose (h : ∀ c ∈ cs, c.isLoose = true) (b : Bool) (r : Request) :
    readWords b r cs = cs.foldlM Word.effect r := by
  induction cs generalizing b r with
  | nil => rfl
  | cons c cs ih =>
    obtain ⟨hc, hcs⟩ := List.forall_mem_cons.mp h
    obtain ⟨b', -, hread⟩ := readWords_cons hc b r cs
    rw [hread, List.foldlM_cons]
    exact congrArg _ (funext fun r' => ih hcs b' r')

/-- Options are carried out before all that follows them. -/
theorem readWords_append (h : ∀ c ∈ cs, c.isLoose = true ∧ c.isOption = true) (r : Request)
    (rest : List Word) :
    readWords false r (cs ++ rest) =
      cs.foldlM Word.effect r >>= fun r' => readWords false r' rest := by
  induction cs generalizing r with
  | nil => rfl
  | cons c cs ih =>
    obtain ⟨⟨hloose, hoption⟩, hcs⟩ := List.forall_mem_cons.mp h
    obtain ⟨b', hb', hread⟩ := readWords_cons hloose false r (cs ++ rest)
    rw [List.cons_append, hread, List.foldlM_cons, bind_assoc, hb' hoption]
    exact congrArg _ (funext fun r' => ih hcs r')

/-! ### Options in any order -/

def Word.added (r : Request) : Word → Request
  | .plain text => r.addPlain text
  | .unknown text => r.addExtra text
  | _ => r

theorem effect_of_not_option (hc : c.isOption = false) (r : Request) :
    c.effect r = .ok (c.added r) := by
  cases c with
  | option s spelling attached => cases hc
  | _ => rfl

/-- No option looks at the places and the words that belong to nothing. -/
theorem apply_added (c : Word) (s : Switch) (r : Request) :
    (c.added r).apply s = (r.apply s).map c.added := by
  have hsame : (r.apply s).map id = r.apply s := by cases r.apply s <;> rfl
  cases c with
  | plain text =>
    simp only [Word.added, Request.addPlain]
    by_cases hlength : r.places.length < 2 <;>
      cases s <;> simp only [Request.apply, Except.map, hlength, if_true, if_false, Request.addExtra]
  | unknown text => cases s <;> rfl
  | endOfOptions => exact hsame.symm
  | option switch spelling attached => exact hsame.symm

theorem foldlM_apply_added (c : Word) (ss : List Switch) (r : Request) :
    ss.foldlM (fun r s => Request.apply s r) (c.added r) =
      (ss.foldlM (fun r s => Request.apply s r) r).map c.added := by
  induction ss generalizing r with
  | nil => rfl
  | cons s ss ih =>
    rw [List.foldlM_cons, List.foldlM_cons, apply_added]
    cases r.apply s with
    | error e => rfl
    | ok r' => exact ih r'

theorem effect_added (hd : d.isOption = true) (c : Word) (r : Request) :
    d.effect (c.added r) = (d.effect r).map c.added := by
  cases d with
  | option s spelling attached =>
    cases attached with
    | none => exact apply_added c s r
    | some a =>
      unfold Word.effect
      dsimp only
      split
      · cases c with
        | plain text =>
          simp only [Word.added, Request.addPlain, Except.map]
          split <;> rfl
        | _ => rfl
      · unfold Request.applyAttached
        split
        · rfl
        · cases letters [] s a.toList with
          | error e => rfl
          | ok ss => exact foldlM_apply_added c ss r
  | _ => cases hd

theorem foldlM_effect_added (h : ∀ d ∈ ds, d.isOption = true) (c : Word) (r : Request) :
    ds.foldlM Word.effect (c.added r) = (ds.foldlM Word.effect r).map c.added := by
  induction ds generalizing r with
  | nil => rfl
  | cons d ds ih =>
    obtain ⟨hd, hds⟩ := List.forall_mem_cons.mp h
    rw [List.foldlM_cons, List.foldlM_cons, effect_added hd]
    cases d.effect r with
    | error e => rfl
    | ok r' => exact ih hds r'

theorem foldlM_effect (cs : List Word) (r : Request) :
    cs.foldlM Word.effect r =
      (cs.filter Word.isOption).foldlM Word.effect r >>= fun r' =>
        (cs.filter fun c => !c.isOption).foldlM Word.effect r' := by
  induction cs generalizing r with
  | nil => rfl
  | cons c cs ih =>
    rw [List.foldlM_cons]
    by_cases hc : c.isOption = true
    · rw [List.filter_cons_of_pos hc, List.filter_cons_of_neg (by simp [hc]), List.foldlM_cons,
        bind_assoc]
      exact congrArg _ (funext ih)
    · rw [Bool.not_eq_true] at hc
      have hoptions : ∀ d ∈ cs.filter Word.isOption, d.isOption = true := fun d hd =>
        (List.mem_filter.mp hd).2
      rw [List.filter_cons_of_neg (by simp [hc]), List.filter_cons_of_pos (by simp [hc]),
        effect_of_not_option hc]
      refine (ih (c.added r)).trans ?_
      rw [foldlM_effect_added hoptions]
      cases (cs.filter Word.isOption).foldlM Word.effect r with
      | error e => rfl
      | ok r' =>
        show _ = (c :: cs.filter fun c => !c.isOption).foldlM Word.effect r'
        rw [List.foldlM_cons, effect_of_not_option hc]
        rfl

/-- Two command lines with the same options and the same other words, each in the same order, ask
for the same, however the options stand between the other words. -/
theorem readWords_congr (h : ∀ c ∈ cs, c.isLoose = true) (h' : ∀ c ∈ cs', c.isLoose = true)
    (hoptions : cs.filter Word.isOption = cs'.filter Word.isOption)
    (hothers : (cs.filter fun c => !c.isOption) = cs'.filter fun c => !c.isOption) (b b' : Bool)
    (r : Request) : readWords b r cs = readWords b' r cs' := by
  rw [readWords_of_loose h, readWords_of_loose h', foldlM_effect cs, foldlM_effect cs', hoptions,
    hothers]

/-! ### What a request can hold -/

/-- A request names two places at most and asks for the usual messages at least; the word '--' is
never the name of the source. -/
structure Request.Sound (r : Request) : Prop where
  verbosity : 1 ≤ r.verbosity
  places : r.places.length ≤ 2
  inputFile : r.inputFile ≠ some (some "--")

theorem sound_start : Request.Sound {} := ⟨Nat.le_refl 1, Nat.zero_le 2, nofun⟩

theorem Request.Sound.addExtra (h : r.Sound) (word : String) : (r.addExtra word).Sound :=
  ⟨h.verbosity, h.places, h.inputFile⟩

theorem Request.Sound.addPlace (h : r.Sound) (hlength : r.places.length < 2)
    (place : Option String) : Request.Sound { r with places := r.places ++ [place] } := by
  refine ⟨h.verbosity, ?_, h.inputFile⟩
  rw [List.length_append]
  exact hlength

theorem Request.Sound.addPlain (h : r.Sound) (word : String) : (r.addPlain word).Sound := by
  unfold Request.addPlain
  split
  · rename_i hlength
    exact h.addPlace hlength (some word)
  · exact h.addExtra word

theorem Request.Sound.addLate (h : r.Sound) (word : String) : (r.addLate word).Sound := by
  unfold Request.addLate
  split
  · rename_i hlate
    exact h.addPlace hlate.2 none
  · exact h.addPlain word

theorem Request.Sound.foldl {step : Request → String → Request}
    (hstep : ∀ r word, r.Sound → (step r word).Sound) (h : r.Sound) (words : List String) :
    (words.foldl step r).Sound := by
  induction words generalizing r with
  | nil => exact h
  | cons word words ih => exact ih (hstep r word h)

theorem Request.Sound.addRest (h : r.Sound) (afterPlace : Bool) (words : List String) :
    (r.addRest afterPlace words).Sound := by
  have hlate (r : Request) (word : String) (hr : r.Sound) : (r.addLate word).Sound :=
    hr.addLate word
  have hextra (r : Request) (word : String) (hr : r.Sound) : (r.addExtra word).Sound :=
    hr.addExtra word
  unfold Request.addRest
  split
  · split
    · exact h
    · exact h.addExtra "--"
  · split
    · exact h.foldl hlate _
    · split
      · exact (h.addPlain _).foldl hlate _
      · exact h.foldl hextra _

theorem Request.Sound.apply (h : r.Sound) (ha : r.apply s = .ok r') : r'.Sound := by
  cases s <;> cases ha
  case verbosity => exact ⟨Nat.le_succ_of_le h.verbosity, h.places, h.inputFile⟩
  all_goals exact ⟨h.verbosity, h.places, h.inputFile⟩

theorem Request.Sound.foldlM_apply {ss : List Switch} (h : r.Sound)
    (ha : ss.foldlM (fun r s => Request.apply s r) r = .ok r') : r'.Sound := by
  induction ss generalizing r with
  | nil =>
    cases ha
    exact h
  | cons s ss ih =>
    rw [List.foldlM_cons] at ha
    cases hs : Request.apply s r with
    | error e =>
      rw [hs] at ha
      cases ha
    | ok r₁ =>
      rw [hs] at ha
      exact ih (h.apply hs) ha

theorem Request.Sound.applyAttached {spelling a : String} (h : r.Sound)
    (ha : r.applyAttached s spelling a = .ok r') : r'.Sound := by
  unfold Request.applyAttached at ha
  split at ha
  · cases ha
  · cases hletters : letters [] s a.toList with
    | error e =>
      rw [hletters] at ha
      cases ha
    | ok ss =>
      rw [hletters] at ha
      exact h.foldlM_apply ha

/-- No word but one behind the end of the options is a plain '--'. -/
def IsTidy : List Word → Prop
  | [] => True
  | .endOfOptions :: _ => True
  | c :: rest => c ≠ .plain "--" ∧ IsTidy rest

theorem ok_of_bind {ε α β : Type} {x : Except ε α} {f : α → Except ε β} {b : β}
    (h : x >>= f = .ok b) : ∃ a, x = .ok a ∧ f a = .ok b := by
  cases x with
  | error e => cases h
  | ok a => exact ⟨a, rfl, h⟩

theorem sound_of_readWords {b : Bool} (ht : IsTidy cs) (h : r.Sound)
    (hread : readWords b r cs = .ok r') : r'.Sound := by
  fun_induction readWords b r cs with
  | case1 =>
    cases hread
    exact h
  | case2 _ _ text rest ih => exact ih ht.2 (h.addPlain text) hread
  | case3 _ _ text rest ih => exact ih ht.2 (h.addExtra text) hread
  | case4 =>
    cases hread
    exact h.addRest _ _
  | case5 _ r s spelling hs value rest ih =>
    obtain ⟨-, hvalue, hrest⟩ := ht
    refine ih hrest ⟨h.verbosity, h.places, ?_⟩ hread
    rintro ⟨⟩
    exact hvalue rfl
  | case6 => cases hread
  | case7 _ r s spelling rest hs ih =>
    obtain ⟨r₁, hr₁, hread⟩ := ok_of_bind hread
    exact ih r₁ ht.2 (h.apply hr₁) hread
  | case8 _ r s spelling a rest hs ih =>
    refine ih ht.2 ⟨h.verbosity, h.places, fun heq => ?_⟩ hread
    have hvalue : attachedValue a = some "--" := Option.some.inj heq
    rw [attachedValue] at hvalue
    split at hvalue
    · cases hvalue
    · rename_i ha
      exact ha (Option.some.inj hvalue)
  | case9 _ r s spelling a rest hs ih =>
    obtain ⟨r₁, hr₁, hread⟩ := ok_of_bind hread
    exact ih r₁ ht.2 (h.applyAttached hr₁) hread

/-- A word is plain only as it stands. -/
theorem eq_of_classify {word text : String} (h : classify word = .ok (.plain text)) :
    text = word := by
  unfold classify at h
  split at h
  · dsimp only at h
    split at h
    · cases h
    · cases h
    · split at h
      · cases h
      · split at h
        · cases h
          rfl
        · cases h
      · cases h
  · cases h
    rfl

theorem tidy_of_classifyAll {words : List String} (h : classifyAll words = .ok cs) :
    IsTidy cs := by
  induction words generalizing cs with
  | nil =>
    cases h
    exact trivial
  | cons word words ih =>
    rw [classifyAll] at h
    split at h
    · cases h
      exact trivial
    · rename_i hword
      obtain ⟨c, hc, h⟩ := ok_of_bind h
      obtain ⟨rest, hrest, h⟩ := ok_of_bind h
      cases h
      cases c with
      | endOfOptions => exact trivial
      | plain text =>
        refine ⟨fun heq => hword ?_, ih hrest⟩
        rw [← eq_of_classify hc, Word.plain.inj heq]
      | option s spelling attached => exact ⟨nofun, ih hrest⟩
      | unknown text => exact ⟨nofun, ih hrest⟩

theorem missing_eq_nil_iff : r.missing = [] ↔ r.inputFile.isSome = true ∧ 2 ≤ r.places.length := by
  rw [Request.missing, List.append_eq_nil_iff, List.drop_eq_nil_iff]
  refine and_congr_left fun _ => ?_
  cases r.inputFile <;> simp

/-- What a command line comes to whose words can be told and whose options are carried out: either
something is missing and is named, or there are words that belong to nothing, or a place has no
name, or all is there. -/
theorem read_cases {words : List String} (hwords : classifyAll words = .ok cs)
    (hread : readWords false {} cs = .ok r) :
    (r.missing ≠ [] ∧ read words = .error (.refused
        ("the following arguments are required: " ++ ", ".intercalate r.missing))) ∨
      (r.missing = [] ∧ r.extras ≠ [] ∧ read words = .error (.refused
        ("unrecognized arguments: " ++ " ".intercalate r.extras))) ∨
      (r.missing = [] ∧ r.extras = [] ∧ none ∈ r.places ∧ read words = .error .noPlace) ∨
      ∃ o, read words = .ok o ∧ r = ⟨some o.inputFile, o.listing, o.openBrowser, o.verbosity,
        [some o.inputDirectory, some o.outputDirectory], []⟩ := by
  have hlength := (sound_of_readWords (tidy_of_classifyAll hwords) sound_start hread).places
  rw [missing_eq_nil_iff, ne_eq, missing_eq_nil_iff, read, hwords]
  simp only [Except.mapError, bind, Except.bind, hread]
  obtain ⟨inputFile, listing, openBrowser, verbosity, places, extras⟩ := r
  cases inputFile with
  | none => exact Or.inl ⟨by simp, rfl⟩
  | some inputFile =>
    match places with
    | [] => exact Or.inl ⟨by simp, rfl⟩
    | [input] => exact Or.inl ⟨by simp, by cases input <;> rfl⟩
    | [input, output] =>
      refine Or.inr ?_
      cases extras with
      | cons extra extras => exact Or.inl ⟨by simp, by simp, by cases input <;> cases output <;> rfl⟩
      | nil =>
        cases input with
        | none => exact Or.inr (Or.inl ⟨by simp, rfl, by simp, rfl⟩)
        | some input =>
          cases output with
          | none => exact Or.inr (Or.inl ⟨by simp, rfl, by simp, rfl⟩)
          | some output =>
            exact Or.inr (Or.inr ⟨⟨inputFile, listing, openBrowser, verbosity, input, output⟩, rfl,
              rfl⟩)
    | _ :: _ :: _ :: _ =>
      simp only [List.length_cons] at hlength
      omega

/-- Options that are read ask for the usual messages at least, and never for a source by the name
'--'. -/
theorem of_read {words : List String} {o : Options} (h : read words = .ok o) :
    1 ≤ o.verbosity ∧ o.inputFile ≠ some "--" := by
  obtain ⟨cs, hcs, hrest⟩ := ok_of_bind (show _ >>= _ = _ from h)
  obtain ⟨r, hr, -⟩ := ok_of_bind hrest
  have hwords : classifyAll words = .ok cs := by
    cases hc : classifyAll words with
    | error m =>
      rw [hc] at hcs
      cases hcs
    | ok cs' =>
      rw [hc] at hcs
      cases hcs
      rfl
  have hsound := sound_of_readWords (tidy_of_classifyAll hwords) sound_start hr
  obtain ⟨-, hread⟩ | ⟨-, -, hread⟩ | ⟨-, -, -, hread⟩ | ⟨o', hread, rfl⟩ := read_cases hwords hr
  all_goals
    rw [hread] at h
    cases h
  exact ⟨hsound.verbosity, fun heq => hsound.inputFile (congrArg some heq)⟩

/-! ### Options written out -/

def Options.switches (o : Options) : List Switch :=
  (if o.listing then [.listing] else []) ++ (if o.openBrowser then [.openBrowser] else []) ++
    List.replicate (o.verbosity - 1) .verbosity

/-- The first spelling of an option. -/
def Switch.spelling (s : Switch) : String :=
  (((spellings.find? (·.2 = s)).map Prod.fst).getD "")

/-- Words that ask for these options. Both places stand behind the end of the options. -/
def Options.words (o : Options) : List String :=
  ("--inputFile" ++ "=" ++ o.inputFile.getD "--") :: (o.switches.map Switch.spelling ++
    ["--", o.inputDirectory, o.outputDirectory])

theorem classify_spelling {e : String × Switch} (he : e ∈ spellings) :
    classify e.1 = .ok (.option e.2 e.1 none) := by
  simp only [spellings, List.mem_cons, List.not_mem_nil, or_false] at he
  rcases he with rfl | rfl | rfl | rfl | rfl | rfl | rfl | rfl | rfl | rfl | rfl <;> rfl

theorem not_sign_of_spelling {e : String × Switch} (he : e ∈ spellings) : '=' ∉ e.1.toList := by
  have hall : ∀ e ∈ spellings, '=' ∉ e.1.toList := by decide
  exact hall e he

/-- A word with a sign '=' is no option as it stands. -/
theorem lookup_of_sign {word : String} (h : '=' ∈ word.toList) : spellings.lookup word = none := by
  refine List.lookup_eq_none_iff.mpr fun e he => bne_iff_ne.mpr ?_
  rintro rfl
  exact not_sign_of_spelling he h

theorem classify_attached {e : String × Switch} (he : e ∈ spellings) (a : String) :
    classify (e.1 ++ "=" ++ a) = .ok (.option e.2 e.1 (some a)) := by
  have hplain : ∀ c ∈ e.1.toList, (c != '=') = true := fun c hc =>
    bne_iff_ne.mpr (ne_of_mem_of_not_mem hc (not_sign_of_spelling he))
  have hdiffer : spellings.Pairwise (·.1 ≠ ·.1) := by decide
  have hdash : ∀ e ∈ spellings, ∃ c cs, e.1.toList = '-' :: c :: cs := by
    simp only [spellings, List.forall_mem_cons]
    exact ⟨⟨_, _, rfl⟩, ⟨_, _, rfl⟩, ⟨_, _, rfl⟩, ⟨_, _, rfl⟩, ⟨_, _, rfl⟩, ⟨_, _, rfl⟩,
      ⟨_, _, rfl⟩, ⟨_, _, rfl⟩, ⟨_, _, rfl⟩, ⟨_, _, rfl⟩, ⟨_, _, rfl⟩, nofun⟩
  have hword : (e.1 ++ "=" ++ a).toList = e.1.toList ++ '=' :: a.toList := by
    rw [String.toList_append, String.toList_append, List.append_assoc]
    rfl
  have hend : ∀ c, ('=' :: a.toList).head? = some c → (c != '=') = false := by
    rintro c ⟨⟩
    rfl
  have hcut : cutAtSign (e.1.toList ++ '=' :: a.toList) = (e.1.toList, some a.toList) := by
    rw [cutAtSign, Text.dropWhile_run hplain hend, Text.takeWhile_run hplain hend]
  have hnone : spellings.lookup (e.1 ++ "=" ++ a) = none := by
    refine lookup_of_sign ?_
    rw [hword]
    exact List.mem_append_right _ List.mem_cons_self
  unfold classify
  split
  · dsimp only
    rw [hword, hcut, hnone]
    simp only [String.ofList_toList, Named.lookup_of_mem hdiffer he]
  · rename_i hnot
    obtain ⟨c, cs, hcs⟩ := hdash e he
    rw [hword, hcs] at hnot
    exact absurd rfl (hnot c _)

theorem classifyAll_append {words : List String}
    (h : List.Forall₂ (fun word c => word ≠ "--" ∧ classify word = .ok c) words cs)
    (rest : List String) :
    classifyAll (words ++ "--" :: rest) = .ok (cs ++ .endOfOptions :: rest.map .plain) := by
  induction h with
  | nil => rfl
  | @cons word c words cs hword _ ih =>
    obtain ⟨hne, hc⟩ := hword
    rw [List.cons_append, classifyAll, if_neg hne, hc, ih]
    rfl

def Options.flags (o : Options) : List Word :=
  o.switches.map fun s => .option s s.spelling none

theorem mem_switches {o : Options} (h : s ∈ o.switches) :
    s = .listing ∨ s = .openBrowser ∨ s = .verbosity := by
  rw [Options.switches, List.mem_append, List.mem_append] at h
  obtain (h | h) | h := h
  · split at h
    · exact Or.inl (List.mem_singleton.mp h)
    · cases h
  · split at h
    · exact Or.inr (Or.inl (List.mem_singleton.mp h))
    · cases h
  · exact Or.inr (Or.inr (List.eq_of_mem_replicate h))

theorem spelling_mem {o : Options} (h : s ∈ o.switches) :
    (s.spelling, s) ∈ spellings ∧ s.takesValue = false := by
  obtain rfl | rfl | rfl := mem_switches h <;> decide

theorem foldlM_verbosity (n : Nat) (spelling : String) (r : Request) :
    (List.replicate n (.option .verbosity spelling none)).foldlM Word.effect r =
      .ok { r with verbosity := r.verbosity + n } := by
  induction n generalizing r with
  | zero => rfl
  | succ n ih =>
    rw [List.replicate_succ, List.foldlM_cons]
    refine (ih { r with verbosity := r.verbosity + 1 }).trans ?_
    rw [Nat.add_right_comm, Nat.add_assoc]

theorem foldlM_flags (o : Options) (r : Request) (hlisting : r.listing = false)
    (hopen : r.openBrowser = false) :
    o.flags.foldlM Word.effect r = .ok { r with
      listing := o.listing
      openBrowser := o.openBrowser
      verbosity := r.verbosity + (o.verbosity - 1) } := by
  rw [Options.flags, Options.switches, List.map_append, List.map_append, List.map_replicate,
    List.foldlM_append, List.foldlM_append]
  cases hl : o.listing <;> cases ho : o.openBrowser <;>
    refine (foldlM_verbosity _ _ _).trans ?_ <;> simp [hlisting, hopen]

/-- What the words for these options are, up to the end of the options. -/
def Options.written (o : Options) : List Word :=
  .option .inputFile "--inputFile" (some (o.inputFile.getD "--")) :: o.flags

theorem attachedValue_getD {input : Option String} (h : input ≠ some "--") :
    attachedValue (input.getD "--") = input := by
  cases input with
  | none => simp [attachedValue]
  | some name =>
    have hname : name ≠ "--" := fun heq => h (congrArg some heq)
    simp [attachedValue, hname]

theorem classifyAll_words (o : Options) :
    classifyAll o.words = .ok (o.written ++
      .endOfOptions :: [.plain o.inputDirectory, .plain o.outputDirectory]) := by
  have hwords : o.words =
      (("--inputFile" ++ "=" ++ o.inputFile.getD "--") :: o.switches.map Switch.spelling) ++
        "--" :: [o.inputDirectory, o.outputDirectory] := rfl
  have hnoEnd : ∀ e ∈ spellings, e.1 ≠ "--" := by decide
  have hsigned : "--inputFile" ++ "=" ++ o.inputFile.getD "--" ≠ "--" := by
    intro heq
    have hmem : '=' ∈ ("--inputFile" ++ "=" ++ o.inputFile.getD "--").toList := by
      rw [String.toList_append, List.mem_append]
      exact Or.inl (by decide)
    rw [heq] at hmem
    exact absurd hmem (by decide)
  have hsource : classify ("--inputFile" ++ "=" ++ o.inputFile.getD "--") =
      .ok (.option .inputFile "--inputFile" (some (o.inputFile.getD "--"))) :=
    classify_attached (e := ("--inputFile", .inputFile)) (by decide) _
  rw [hwords]
  refine classifyAll_append (.cons ⟨hsigned, hsource⟩ ?_) _
  rw [Options.flags, List.forall₂_map_left_iff, List.forall₂_map_right_iff, List.forall₂_same]
  intro s hs
  have hmem := (spelling_mem hs).1
  exact ⟨hnoEnd _ hmem, classify_spelling hmem⟩

theorem loose_written {o : Options} {c : Word} (h : c ∈ o.written) :
    c.isLoose = true ∧ c.isOption = true := by
  rcases List.mem_cons.mp h with rfl | hflag
  · exact ⟨rfl, rfl⟩
  · obtain ⟨s, hs, rfl⟩ := List.mem_map.mp hflag
    refine ⟨?_, rfl⟩
    rw [Word.isLoose, (spelling_mem hs).2]
    rfl

/-- What is asked for by the words for these options. -/
def Options.request (o : Options) : Request where
  inputFile := some o.inputFile
  listing := o.listing
  openBrowser := o.openBrowser
  verbosity := o.verbosity
  places := [some o.inputDirectory, some o.outputDirectory]

theorem readWords_written {o : Options} (hverbosity : 1 ≤ o.verbosity)
    (hinput : o.inputFile ≠ some "--") (houtput : o.outputDirectory ≠ "--") :
    readWords false {} (o.written ++
      .endOfOptions :: [.plain o.inputDirectory, .plain o.outputDirectory]) = .ok o.request := by
  have htakes : Switch.inputFile.takesValue = true := rfl
  have hstart : Word.effect {} (.option .inputFile "--inputFile" (some (o.inputFile.getD "--"))) =
      .ok { inputFile := some o.inputFile } := by
    rw [Word.effect, if_pos htakes, attachedValue_getD hinput]
  have hcount : 1 + (o.verbosity - 1) = o.verbosity := Nat.add_sub_cancel' hverbosity
  rw [readWords_append fun c hc => loose_written hc, Options.written, List.foldlM_cons, hstart]
  show o.flags.foldlM Word.effect { inputFile := some o.inputFile } >>= _ = _
  rw [foldlM_flags o _ rfl rfl]
  show readWords false _ _ = _
  rw [readWords, hcount]
  simp [Request.addRest, Word.plainText?, Request.addPlain, Request.addLate, houtput,
    Options.request]

/-- Options that are written out are read as they are. -/
theorem read_words {o : Options} (hverbosity : 1 ≤ o.verbosity) (hinput : o.inputFile ≠ some "--")
    (houtput : o.outputDirectory ≠ "--") : read o.words = .ok o := by
  have hmissing : o.request.missing = [] := missing_eq_nil_iff.mpr ⟨rfl, Nat.le_refl 2⟩
  obtain ⟨hne, -⟩ | ⟨-, hne, -⟩ | ⟨-, -, hnone, -⟩ | ⟨o', hread, heq⟩ :=
    read_cases (classifyAll_words o) (readWords_written hverbosity hinput houtput)
  · exact absurd hmissing hne
  · exact absurd rfl hne
  · simp [Options.request] at hnone
  · have hsame : o' = o := by
      cases o
      cases o'
      cases heq
      rfl
    rw [hread, hsame]

end Shoutmark.CommandLine
