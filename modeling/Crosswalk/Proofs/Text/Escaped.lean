import Crosswalk.Json
import Crosswalk.Text.Split
import Mathlib.Data.List.Infix
import Mathlib.Data.List.Basic

/-!
# Searching in escaped text

A JSON text has a backslash before its quotation marks and backslashes, and an escape sequence for
every control character. Who searches in what is written for a text may therefore miss a part of it
that is written in another way, and may find letters of an escape sequence that the text does not
have. Parts that are kept by escaping are not missed, and parts that begin like no escape sequence
are not found wrongly.
-/

namespace Crosswalk.Json

/-- What is written for the characters of a text. -/
def escaped (cs : List Char) : List Char :=
  cs.flatMap escape

def IsControl (c : Char) : Prop :=
  c.toNat < 32

instance (c : Char) : Decidable (IsControl c) :=
  inferInstanceAs (Decidable (c.toNat < 32))

/-- The letters and digits of escape sequences. -/
def escapeLetters : List Char :=
  "0123456789abcdefnrtu".toList

variable {needle cs : List Char}

/-! ### What is written for a character -/

theorem hexDigits_subset (k n : Nat) : Uuid.hexDigits k n ⊆ escapeLetters := by
  have hdigit : ∀ m : Fin 16, Uuid.hexDigit m.val ∈ escapeLetters := by decide
  induction k generalizing n with
  | zero => exact List.nil_subset _
  | succ k ih =>
    rw [Uuid.hexDigits]
    refine List.append_subset.2 ⟨ih _, List.cons_subset.2 ⟨?_, List.nil_subset _⟩⟩
    exact hdigit ⟨n % 16, Nat.mod_lt _ (by decide)⟩

/-- A character is written as it is, after a backslash, or as an escape sequence. -/
theorem escape_cases (c : Char) :
    (escape c = [c] ∧ c ≠ '"' ∧ c ≠ '\\' ∧ ¬ IsControl c) ∨
      ((c = '"' ∨ c = '\\') ∧ escape c = ['\\', c]) ∨
      (IsControl c ∧ ∃ letters ⊆ escapeLetters, escape c = '\\' :: letters) := by
  unfold escape
  split_ifs with hquote hslash hfeed hreturn htab hback hform hcontrol
  · exact .inr (.inl ⟨.inl hquote, by rw [hquote]⟩)
  · exact .inr (.inl ⟨.inr hslash, by rw [hslash]⟩)
  · exact .inr (.inr ⟨by rw [hfeed]; decide, ['n'], by decide, rfl⟩)
  · exact .inr (.inr ⟨by rw [hreturn]; decide, ['r'], by decide, rfl⟩)
  · exact .inr (.inr ⟨by rw [htab]; decide, ['t'], by decide, rfl⟩)
  · exact .inr (.inr ⟨by rw [hback]; decide, ['b'], by decide, rfl⟩)
  · exact .inr (.inr ⟨by rw [hform]; decide, ['f'], by decide, rfl⟩)
  · refine .inr (.inr ⟨hcontrol, _, ?_, rfl⟩)
    exact List.cons_subset.2 ⟨by decide, hexDigits_subset ..⟩
  · exact .inl ⟨rfl, hquote, hslash, hcontrol⟩

theorem escape_eq_self_iff {c : Char} :
    escape c = [c] ↔ c ≠ '"' ∧ c ≠ '\\' ∧ ¬ IsControl c := by
  rcases escape_cases c with ⟨hself, hplain⟩ | ⟨hmark, hescape⟩ | ⟨hcontrol, letters, -, hescape⟩
  · exact iff_of_true hself hplain
  · refine iff_of_false (by simp [hescape]) fun hplain => ?_
    exact hmark.elim hplain.1 hplain.2.1
  · refine iff_of_false (fun hself => ?_) fun hplain => hplain.2.2 hcontrol
    obtain rfl : '\\' = c := (List.cons.inj (hescape.symm.trans hself)).1
    exact absurd hcontrol (by decide)

/-! ### Texts that are written as they are -/

/-- A text without marks and control characters, which is written as it is. -/
def Unescaped (cs : List Char) : Prop :=
  ∀ c ∈ cs, c ≠ '"' ∧ c ≠ '\\' ∧ ¬ IsControl c

instance (cs : List Char) : Decidable (Unescaped cs) :=
  List.decidableBAll (fun c => c ≠ '"' ∧ c ≠ '\\' ∧ ¬ IsControl c) cs

theorem Unescaped.escaped_eq (h : Unescaped cs) : escaped cs = cs := by
  induction cs with
  | nil => rfl
  | cons c cs ih =>
    have hself := escape_eq_self_iff.2 (h c List.mem_cons_self)
    have hrest : escaped cs = cs := ih fun d hd => h d (List.mem_cons_of_mem c hd)
    rw [escaped, List.flatMap_cons, hself, ← escaped, hrest]
    rfl

/-- A text is kept by escaping when it is part of what is written for it. -/
def Kept (cs : List Char) : Prop :=
  cs <:+: escaped cs

instance (cs : List Char) : Decidable (Kept cs) :=
  inferInstanceAs (Decidable (cs <:+: escaped cs))

theorem Unescaped.kept (h : Unescaped cs) : Kept cs := by
  rw [Kept, h.escaped_eq]

theorem escaped_infix_escaped (h : needle <:+: cs) : escaped needle <:+: escaped cs := by
  obtain ⟨before, after, rfl⟩ := h
  unfold escaped
  rw [List.flatMap_append, List.flatMap_append]
  exact List.infix_append ..

/-- What is kept by escaping is found wherever it is. -/
theorem Kept.infix_escaped (h : Kept needle) (hpart : needle <:+: cs) : needle <:+: escaped cs :=
  List.IsInfix.trans h (escaped_infix_escaped hpart)

/-! ### Parts on one side -/

/-- A part without the separator lies on one side of it. -/
theorem infix_append_cons_iff {sep : Char} {xs ys : List Char} (hsep : sep ∉ needle) :
    needle <:+: xs ++ sep :: ys ↔ needle <:+: xs ∨ needle <:+: ys := by
  constructor
  · rw [List.infix_append_iff]
    rintro (hxs | hys | ⟨before, after, rfl, hbefore, hafter⟩)
    · exact .inl hxs
    · rcases List.infix_cons_iff.1 hys with hprefix | hys
      · rcases List.prefix_cons_iff.1 hprefix with rfl | ⟨rest, rfl, -⟩
        · exact .inl List.nil_infix
        · exact absurd List.mem_cons_self hsep
      · exact .inr hys
    · rcases List.prefix_cons_iff.1 hafter with rfl | ⟨rest, rfl, -⟩
      · rw [List.append_nil]
        exact .inl hbefore.isInfix
      · exact absurd (List.mem_append_right _ List.mem_cons_self) hsep
  · rintro (hxs | hys)
    · exact hxs.trans (List.prefix_append xs _).isInfix
    · exact hys.trans ((List.suffix_cons sep ys).trans (List.suffix_append xs _)).isInfix

/-- A part that begins with none of some letters lies behind them. -/
theorem infix_of_infix_append {letters ys : List Char} (hhead : ∀ c ∈ needle.head?, c ∉ letters)
    (h : needle <:+: letters ++ ys) : needle <:+: ys := by
  induction letters with
  | nil => exact h
  | cons l letters ih =>
    have hrest : ∀ c ∈ needle.head?, c ∉ letters := fun c hc hmem =>
      hhead c hc (List.mem_cons_of_mem l hmem)
    rcases List.infix_cons_iff.1 h with hprefix | h
    · rcases List.prefix_cons_iff.1 hprefix with rfl | ⟨rest, rfl, -⟩
      · exact List.nil_infix
      · exact absurd List.mem_cons_self (hhead l rfl)
    · exact ih hrest h

/-! ### What is found -/

def NoControl (cs : List Char) : Prop :=
  ∀ c ∈ cs, ¬ IsControl c

instance (cs : List Char) : Decidable (NoControl cs) :=
  List.decidableBAll (fun c => ¬ IsControl c) cs

/-- A text begins like no escape sequence. -/
def BeginsApart (cs : List Char) : Prop :=
  ∀ c ∈ cs.head?, c ∉ escapeLetters

instance (cs : List Char) : Decidable (BeginsApart cs) :=
  Option.decidableForallMem cs.head?

/-- What is written for the control characters of a text does not look like a part of it: there are
none, or the part has none and begins like no escape sequence. -/
def Discernible (needle cs : List Char) : Prop :=
  NoControl cs ∨ (NoControl needle ∧ BeginsApart needle)

/-- Whether searching in what is written for a text comes to searching in the text: nothing in the
text needs escaping, or the part has no marks and escape sequences do not look like it. -/
def Faithful (needle cs : List Char) : Prop :=
  Unescaped cs ∨ ('"' ∉ needle ∧ '\\' ∉ needle ∧ Discernible needle cs)

instance (needle cs : List Char) : Decidable (Discernible needle cs) :=
  inferInstanceAs (Decidable (_ ∨ _ ∧ _))

instance (needle cs : List Char) : Decidable (Faithful needle cs) :=
  inferInstanceAs (Decidable (_ ∨ _ ∧ _ ∧ _))

/-- What is found in the writing of a text is found in the text. The characters that have been
passed are kept before the rest, since a part may begin among them. -/
theorem infix_of_infix_escaped (hslash : '\\' ∉ needle) (hdiscernible : Discernible needle cs)
    (h : needle <:+: escaped cs) : needle <:+: cs := by
  suffices hpassed : ∀ passed, needle <:+: passed ++ escaped cs → needle <:+: passed ++ cs from
    hpassed [] h
  clear h
  induction cs with
  | nil => exact fun _ h => h
  | cons c cs ih =>
    have hcs : Discernible needle cs :=
      hdiscernible.imp_left fun hnone d hd => hnone d (List.mem_cons_of_mem c hd)
    intro passed h
    rw [escaped, List.flatMap_cons, ← escaped] at h
    rcases escape_cases c with ⟨hself, -⟩ | ⟨-, hescape⟩ | ⟨hcontrol, letters, hletters, hescape⟩
    · rw [hself, ← List.append_assoc] at h
      have hrest := ih hcs _ h
      rwa [List.append_assoc] at hrest
    · rw [hescape, List.cons_append, infix_append_cons_iff hslash] at h
      rcases h with h | h
      · exact h.trans (List.prefix_append passed _).isInfix
      · exact (ih hcs [c] h).trans (List.suffix_append passed _).isInfix
    · rw [hescape, List.cons_append, infix_append_cons_iff hslash] at h
      rcases h with h | h
      · exact h.trans (List.prefix_append passed _).isInfix
      · -- the text has a control character, and so the part does not begin in the sequence
        rcases hdiscernible with hnone | ⟨-, hhead⟩
        · exact absurd hcontrol (hnone c List.mem_cons_self)
        · have hbehind := infix_of_infix_append
            (fun d hd hmem => hhead d hd (hletters hmem)) h
          have hsuffix : cs <:+ passed ++ c :: cs :=
            (List.suffix_cons c cs).trans (List.suffix_append passed _)
          exact (ih hcs [] hbehind).trans hsuffix.isInfix

theorem Faithful.infix_escaped_iff (h : Faithful needle cs) :
    needle <:+: escaped cs ↔ needle <:+: cs := by
  rcases h with hplain | ⟨hquote, hslash, hdiscernible⟩
  · rw [hplain.escaped_eq]
  · refine ⟨infix_of_infix_escaped hslash hdiscernible, fun hpart => ?_⟩
    refine Kept.infix_escaped (Unescaped.kept fun c hc => ⟨?_, ?_, ?_⟩) hpart
    · exact fun heq => hquote (heq ▸ hc)
    · exact fun heq => hslash (heq ▸ hc)
    · rcases hdiscernible with hnone | ⟨hnone, -⟩
      · exact hnone c (hpart.subset hc)
      · exact hnone c hc

/-! ### In lower case -/

/-- A capital becomes a small letter; everything else stays as it is. -/
theorem toLower_cases (c : Char) :
    (65 ≤ c.toNat ∧ c.toNat ≤ 90 ∧ c.toLower.toNat = c.toNat + 32) ∨ c.toLower = c := by
  unfold Char.toLower
  split
  · rename_i hcapital
    have hge : 65 ≤ c.val.toNat := hcapital.1
    have hle : c.val.toNat ≤ 90 := hcapital.2
    refine .inl ⟨hge, hle, ?_⟩
    show (c.val + 32).toNat = _
    rw [UInt32.toNat_add]
    show (c.val.toNat + 32) % 2 ^ 32 = c.val.toNat + 32
    omega
  · exact .inr rfl

theorem escape_eq_self_of_toNat {c : Char} (h : 65 ≤ c.toNat) (hslash : c.toNat ≠ 92) :
    escape c = [c] := by
  refine escape_eq_self_iff.2 ⟨?_, ?_, ?_⟩
  · rintro rfl
    exact absurd h (by decide)
  · rintro rfl
    exact hslash rfl
  · unfold IsControl
    omega

theorem escape_map_toLower (c : Char) : (escape c).map Char.toLower = escape c.toLower := by
  rcases toLower_cases c with ⟨hge, hle, hlower⟩ | hlower
  · rw [escape_eq_self_of_toNat hge (by omega), escape_eq_self_of_toNat (by omega) (by omega)]
    rfl
  · have hletters : escapeLetters.all (fun d => d.toLower = d) = true := by decide
    rw [hlower]
    rcases escape_cases c with ⟨hself, -⟩ | ⟨-, hescape⟩ | ⟨-, letters, hsubset, hescape⟩
    · rw [hself, List.map_singleton, hlower]
    · rw [hescape, List.map_cons, List.map_singleton, hlower]
      rfl
    · rw [hescape, List.map_cons]
      refine congrArg ('\\' :: ·) ?_
      refine (List.map_congr_left fun d hd => ?_).trans (List.map_id _)
      exact of_decide_eq_true (List.all_eq_true.1 hletters d (hsubset hd))

/-- It does not matter whether a text is turned into lower case before it is written or after. -/
theorem escaped_map_toLower (cs : List Char) :
    (escaped cs).map Char.toLower = escaped (cs.map Char.toLower) := by
  unfold escaped
  rw [List.map_flatMap, List.flatMap_map]
  exact List.flatMap_congr fun c _ => escape_map_toLower c

end Crosswalk.Json
