import Mathlib.Data.List.Basic

/-!
# Grammars with actions

A grammar reads a text from the front and carries a state that its actions change. Where a
sequence or an alternative does not match, the text is read again from the place where it
began, but what the actions did before stays.

* `seq_cons_of_some`, `alt_of_none`: what a grammar does when its parts match or do not;
* `Always.seq`, `Always.alt`: what every action keeps, the grammar keeps;
* `Tandem.seq_cons`, `Follows.seq_cons`: two runs of a grammar side by side.
-/

namespace TfAnalytics.Lib

variable {σ α β : Type}

/-- The state afterwards, and the rest of the text if the grammar matches. -/
abbrev Phrase (σ α : Type) := σ → List α → σ × Option (List α)

namespace Phrase

/-- Something is read off the front, and the action gets it. -/
def token (read : List α → Option (β × List α)) (act : σ → β → σ) : Phrase σ α :=
  fun s text =>
    match read text with
    | some (b, rest) => (act s b, some rest)
    | none => (s, none)

def seq : List (Phrase σ α) → σ → List α → σ × Option (List α)
  | [], s, text => (s, some text)
  | p :: ps, s, text =>
    match p s text with
    | (s', some rest) => seq ps s' rest
    | (s', none) => (s', none)

def alt (p q : Phrase σ α) : Phrase σ α := fun s text =>
  match p s text with
  | (s', some rest) => (s', some rest)
  | (s', none) => q s' text

def opt (p : Phrase σ α) : Phrase σ α := fun s text =>
  match p s text with
  | (s', some rest) => (s', some rest)
  | (s', none) => (s', some text)

-- ---------------------------------------------------------------------------
-- Matching
-- ---------------------------------------------------------------------------

theorem token_of_some {read : List α → Option (β × List α)} {act : σ → β → σ} {text rest : List α}
    {b : β} (h : read text = some (b, rest)) (s : σ) :
    token read act s text = (act s b, some rest) := by
  rw [token, h]

theorem token_of_none {read : List α → Option (β × List α)} {act : σ → β → σ} {text : List α}
    (h : read text = none) (s : σ) : token read act s text = (s, none) := by
  rw [token, h]

@[simp] theorem seq_nil (s : σ) (text : List α) : seq [] s text = (s, some text) := rfl

theorem seq_cons_of_some {p : Phrase σ α} {s s' : σ} {text rest : List α}
    (h : p s text = (s', some rest)) (ps : List (Phrase σ α)) :
    seq (p :: ps) s text = seq ps s' rest := by
  rw [seq, h]

theorem seq_cons_of_none {p : Phrase σ α} {s s' : σ} {text : List α}
    (h : p s text = (s', none)) (ps : List (Phrase σ α)) : seq (p :: ps) s text = (s', none) := by
  rw [seq, h]

theorem seq_append_of_some {ps : List (Phrase σ α)} {s s' : σ} {text rest : List α}
    (h : seq ps s text = (s', some rest)) (qs : List (Phrase σ α)) :
    seq (ps ++ qs) s text = seq qs s' rest := by
  induction ps generalizing s text with
  | nil =>
    cases h
    rfl
  | cons p ps ih =>
    rcases hp : p s text with ⟨s'', _ | r⟩
    · rw [seq_cons_of_none hp] at h
      cases h
    · rw [seq_cons_of_some hp] at h
      rw [List.cons_append, seq_cons_of_some hp, ih h]

theorem seq_append_of_none {ps : List (Phrase σ α)} {s s' : σ} {text : List α}
    (h : seq ps s text = (s', none)) (qs : List (Phrase σ α)) :
    seq (ps ++ qs) s text = (s', none) := by
  induction ps generalizing s text with
  | nil => cases h
  | cons p ps ih =>
    rcases hp : p s text with ⟨s'', _ | r⟩
    · rw [seq_cons_of_none hp] at h
      rw [List.cons_append, seq_cons_of_none hp, h]
    · rw [seq_cons_of_some hp] at h
      rw [List.cons_append, seq_cons_of_some hp, ih h]

theorem alt_of_some {p : Phrase σ α} {s s' : σ} {text rest : List α}
    (h : p s text = (s', some rest)) (q : Phrase σ α) : alt p q s text = (s', some rest) := by
  rw [alt, h]

theorem alt_of_none {p : Phrase σ α} {s s' : σ} {text : List α}
    (h : p s text = (s', none)) (q : Phrase σ α) : alt p q s text = q s' text := by
  rw [alt, h]

-- ---------------------------------------------------------------------------
-- What the actions keep
-- ---------------------------------------------------------------------------

/-- The state before and the state after are related, whether the grammar matches or not. -/
def Always (R : σ → σ → Prop) (p : Phrase σ α) : Prop := ∀ s text, R s (p s text).1

variable {R : σ → σ → Prop}

theorem Always.token {read : List α → Option (β × List α)} {act : σ → β → σ} (hrefl : ∀ s, R s s)
    (h : ∀ s text b rest, read text = some (b, rest) → R s (act s b)) :
    Always R (token read act) := by
  intro s text
  cases hread : read text with
  | none =>
    rw [token_of_none hread]
    exact hrefl s
  | some r =>
    obtain ⟨b, rest⟩ := r
    rw [token_of_some hread]
    exact h s text b rest hread

theorem Always.seq (hrefl : ∀ s, R s s) (htrans : ∀ s₁ s₂ s₃, R s₁ s₂ → R s₂ s₃ → R s₁ s₃)
    {ps : List (Phrase σ α)} (h : ∀ p ∈ ps, Always R p) : Always R (seq ps) := by
  induction ps with
  | nil => exact fun s _ => hrefl s
  | cons p ps ih =>
    rw [List.forall_mem_cons] at h
    intro s text
    have hp := h.1 s text
    rcases hres : p s text with ⟨s', _ | rest⟩
    · rw [hres] at hp
      rw [seq_cons_of_none hres]
      exact hp
    · rw [hres] at hp
      rw [seq_cons_of_some hres]
      exact htrans _ _ _ hp (ih h.2 s' rest)

theorem Always.alt (htrans : ∀ s₁ s₂ s₃, R s₁ s₂ → R s₂ s₃ → R s₁ s₃) {p q : Phrase σ α}
    (hp : Always R p) (hq : Always R q) : Always R (alt p q) := by
  intro s text
  have hfirst := hp s text
  rcases hres : p s text with ⟨s', _ | rest⟩
  · rw [hres] at hfirst
    rw [alt_of_none hres]
    exact htrans _ _ _ hfirst (hq s' text)
  · rw [hres] at hfirst
    rw [alt_of_some hres]
    exact hfirst

theorem Always.opt {p : Phrase σ α} (hp : Always R p) : Always R (opt p) := by
  intro s text
  have h := hp s text
  unfold Phrase.opt
  rcases hres : p s text with ⟨s', _ | rest⟩ <;> rw [hres] at h <;> exact h

-- ---------------------------------------------------------------------------
-- Two runs
-- ---------------------------------------------------------------------------

/-- On related texts both runs match or neither does, and the states stay related. -/
def Tandem (R : σ → σ → Prop) (S S' : List α → List α → Prop) (p : Phrase σ α) : Prop :=
  ∀ s₁ s₂ t₁ t₂, R s₁ s₂ → S t₁ t₂ →
    (∃ s₁' s₂', p s₁ t₁ = (s₁', none) ∧ p s₂ t₂ = (s₂', none) ∧ R s₁' s₂') ∨
    ∃ s₁' s₂' r₁ r₂, p s₁ t₁ = (s₁', some r₁) ∧ p s₂ t₂ = (s₂', some r₂) ∧ R s₁' s₂' ∧ S' r₁ r₂

/-- Where the first run matches and what it leaves is kept, the second matches as well. -/
def Follows (R : σ → σ → Prop) (S : List α → List α → Prop) (kept : List α → Prop)
    (p : Phrase σ α) : Prop :=
  ∀ s₁ s₂ t₁ t₂, R s₁ s₂ → S t₁ t₂ → ∀ s₁' r₁, p s₁ t₁ = (s₁', some r₁) → kept r₁ →
    ∃ s₂' r₂, p s₂ t₂ = (s₂', some r₂) ∧ R s₁' s₂' ∧ S r₁ r₂

variable {S S' S'' : List α → List α → Prop} {kept : List α → Prop}

theorem Tandem.token {read : List α → Option (β × List α)} {act : σ → β → σ}
    (hread : ∀ t₁ t₂, S t₁ t₂ → (read t₁ = none ∧ read t₂ = none) ∨
      ∃ b r₁ r₂, read t₁ = some (b, r₁) ∧ read t₂ = some (b, r₂) ∧ S' r₁ r₂)
    (hact : ∀ s₁ s₂ b, R s₁ s₂ → R (act s₁ b) (act s₂ b)) :
    Tandem R S S' (Phrase.token read act) := by
  intro s₁ s₂ t₁ t₂ hs ht
  obtain ⟨h₁, h₂⟩ | ⟨b, r₁, r₂, h₁, h₂, hr⟩ := hread t₁ t₂ ht
  · exact .inl ⟨s₁, s₂, token_of_none h₁ s₁, token_of_none h₂ s₂, hs⟩
  · exact .inr ⟨_, _, r₁, r₂, token_of_some h₁ s₁, token_of_some h₂ s₂, hact _ _ b hs, hr⟩

theorem Tandem.seq_nil : Tandem R S S (Phrase.seq []) :=
  fun s₁ s₂ t₁ t₂ hs ht => .inr ⟨s₁, s₂, t₁, t₂, rfl, rfl, hs, ht⟩

theorem Tandem.seq_cons {p : Phrase σ α} {ps : List (Phrase σ α)} (hp : Tandem R S S' p)
    (hps : Tandem R S' S'' (Phrase.seq ps)) : Tandem R S S'' (Phrase.seq (p :: ps)) := by
  intro s₁ s₂ t₁ t₂ hs ht
  obtain ⟨s₁', s₂', h₁, h₂, hs'⟩ | ⟨s₁', s₂', r₁, r₂, h₁, h₂, hs', hr⟩ := hp s₁ s₂ t₁ t₂ hs ht
  · exact .inl ⟨s₁', s₂', seq_cons_of_none h₁ ps, seq_cons_of_none h₂ ps, hs'⟩
  · rw [seq_cons_of_some h₁, seq_cons_of_some h₂]
    exact hps _ _ _ _ hs' hr

theorem Tandem.alt {p q : Phrase σ α} (hp : Tandem R S S' p) (hq : Tandem R S S' q) :
    Tandem R S S' (Phrase.alt p q) := by
  intro s₁ s₂ t₁ t₂ hs ht
  obtain ⟨s₁', s₂', h₁, h₂, hs'⟩ | ⟨s₁', s₂', r₁, r₂, h₁, h₂, hs', hr⟩ := hp s₁ s₂ t₁ t₂ hs ht
  · rw [alt_of_none h₁, alt_of_none h₂]
    exact hq _ _ _ _ hs' ht
  · exact .inr ⟨s₁', s₂', r₁, r₂, alt_of_some h₁ q, alt_of_some h₂ q, hs', hr⟩

theorem Tandem.opt {p : Phrase σ α} (hp : Tandem R S S p) : Tandem R S S (Phrase.opt p) := by
  intro s₁ s₂ t₁ t₂ hs ht
  unfold Phrase.opt
  obtain ⟨s₁', s₂', h₁, h₂, hs'⟩ | ⟨s₁', s₂', r₁, r₂, h₁, h₂, hs', hr⟩ := hp s₁ s₂ t₁ t₂ hs ht
  · rw [h₁, h₂]
    exact .inr ⟨s₁', s₂', t₁, t₂, rfl, rfl, hs', ht⟩
  · rw [h₁, h₂]
    exact .inr ⟨s₁', s₂', r₁, r₂, rfl, rfl, hs', hr⟩

theorem Tandem.follows {p : Phrase σ α} (hp : Tandem R S S p) : Follows R S kept p := by
  intro s₁ s₂ t₁ t₂ hs ht s₁' r₁ h₁ _
  obtain ⟨_, _, h, -, -⟩ | ⟨_, s₂', _, r₂, h, h₂, hs', hr⟩ := hp s₁ s₂ t₁ t₂ hs ht
  · rw [h₁] at h
    cases h
  · rw [h₁] at h
    cases h
    exact ⟨s₂', r₂, h₂, hs', hr⟩

theorem Follows.seq_cons {p : Phrase σ α} {ps : List (Phrase σ α)} (hp : Tandem R S S p)
    (hps : Follows R S kept (Phrase.seq ps)) : Follows R S kept (Phrase.seq (p :: ps)) := by
  intro s₁ s₂ t₁ t₂ hs ht s₁' r₁ hrun hkept
  obtain ⟨_, _, h₁, -, -⟩ | ⟨_, _, _, _, h₁, h₂, hs', hr⟩ := hp s₁ s₂ t₁ t₂ hs ht
  · rw [seq_cons_of_none h₁] at hrun
    cases hrun
  · rw [seq_cons_of_some h₁] at hrun
    rw [seq_cons_of_some h₂]
    exact hps _ _ _ _ hs' hr _ _ hrun hkept

theorem Follows.seq_single {p : Phrase σ α} (hp : Follows R S kept p) :
    Follows R S kept (Phrase.seq [p]) := by
  intro s₁ s₂ t₁ t₂ hs ht s₁' r₁ hrun hkept
  rcases h₁ : p s₁ t₁ with ⟨s₁'', _ | t₁'⟩
  · rw [seq_cons_of_none h₁] at hrun
    cases hrun
  · rw [seq_cons_of_some h₁] at hrun
    cases hrun
    obtain ⟨s₂', r₂, h₂, hs', hr⟩ := hp _ _ _ _ hs ht _ _ h₁ hkept
    exact ⟨s₂', r₂, seq_cons_of_some h₂ [], hs', hr⟩

theorem Follows.alt {p q : Phrase σ α} (hp : Tandem R S S p) (hq : Follows R S kept q) :
    Follows R S kept (Phrase.alt p q) := by
  intro s₁ s₂ t₁ t₂ hs ht s₁' r₁ hrun hkept
  obtain ⟨_, _, h₁, h₂, hs'⟩ | ⟨_, s₂', _, r₂, h₁, h₂, hs', hr⟩ := hp s₁ s₂ t₁ t₂ hs ht
  · rw [alt_of_none h₁] at hrun
    rw [alt_of_none h₂]
    exact hq _ _ _ _ hs' ht _ _ hrun hkept
  · rw [alt_of_some h₁] at hrun
    cases hrun
    exact ⟨s₂', r₂, alt_of_some h₂ q, hs', hr⟩

/-- What is left is the end of the text. -/
def Shrinks (p : Phrase σ α) : Prop := ∀ s text s' rest, p s text = (s', some rest) → rest <:+ text

theorem Shrinks.token {read : List α → Option (β × List α)} {act : σ → β → σ}
    (h : ∀ text b rest, read text = some (b, rest) → rest <:+ text) :
    Shrinks (Phrase.token read act) := by
  intro s text s' rest hrun
  rcases hread : read text with _ | ⟨b, r⟩
  · rw [token_of_none hread] at hrun
    cases hrun
  · rw [token_of_some hread] at hrun
    cases hrun
    exact h _ _ _ hread

theorem Shrinks.seq {ps : List (Phrase σ α)} (h : ∀ p ∈ ps, Shrinks p) : Shrinks (Phrase.seq ps) := by
  induction ps with
  | nil =>
    intro s text s' rest hrun
    cases hrun
    exact List.suffix_rfl
  | cons p ps ih =>
    rw [List.forall_mem_cons] at h
    intro s text s' rest hrun
    rcases hp : p s text with ⟨s'', _ | r⟩
    · rw [seq_cons_of_none hp] at hrun
      cases hrun
    · rw [seq_cons_of_some hp] at hrun
      exact (ih h.2 _ _ _ _ hrun).trans (h.1 _ _ _ _ hp)

theorem Shrinks.alt {p q : Phrase σ α} (hp : Shrinks p) (hq : Shrinks q) :
    Shrinks (Phrase.alt p q) := by
  intro s text s' rest hrun
  rcases hres : p s text with ⟨s'', _ | r⟩
  · rw [alt_of_none hres] at hrun
    exact hq _ _ _ _ hrun
  · rw [alt_of_some hres] at hrun
    cases hrun
    exact hp _ _ _ _ hres

theorem Shrinks.opt {p : Phrase σ α} (hp : Shrinks p) : Shrinks (Phrase.opt p) := by
  intro s text s' rest hrun
  unfold Phrase.opt at hrun
  rcases hres : p s text with ⟨s'', _ | r⟩ <;> rw [hres] at hrun <;> cases hrun
  · exact List.suffix_rfl
  · exact hp _ _ _ _ hres

end Phrase

end TfAnalytics.Lib
