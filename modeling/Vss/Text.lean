import Mathlib.Data.Char
/-!
# Text — how the backing store orders and matches keys

The listing query reads `key > $3 AND key LIKE $4 ORDER BY key`, so two pieces of the database's text semantics
are part of the model.  The order is the "C" collation: code points compared left to right, a proper prefix first
(`collateLt`; the primary key of `vss_db` is ordered by it too).  `LIKE` is PostgreSQL's, with `\` as its default
escape character: a pattern is parsed (`parseLike`, which rejects a lone escape at the end) and then matched, `_`
standing for one character and `%` for any run of them (`likeMatch`).  `key_like` is the prefix with `%` pasted
after it; when the prefix holds none of `%`, `_`, `\` the pattern is exactly "begins with"
(`likeMatch_literal_iff`).
-/
namespace Vss

/-! ## The collation -/

/-- **`<` on text** under the "C" collation. -/
def collateLt : List Char → List Char → Bool
  | [], [] => false
  | [], _ :: _ => true
  | _ :: _, [] => false
  | c :: cs, d :: ds => if c = d then collateLt cs ds else decide (c < d)

/-- `<` on the `TEXT` columns.  The sources hold no schema, so the column's collation is an assumption of the
model: the "C" collation, the byte order of UTF-8 text and the order the specification calls lexicographic.  Under a
locale's collation the pages would come in that locale's order instead. -/
def textLt (a b : String) : Bool := collateLt a.data b.data

theorem collateLt_irrefl : ∀ a : List Char, collateLt a a = false
  | [] => rfl
  | c :: cs => by simp [collateLt, collateLt_irrefl cs]

theorem collateLt_trans : ∀ {a b c : List Char}, collateLt a b → collateLt b c → collateLt a c
  | [], _ :: _, _ :: _, _, _ => rfl
  | x :: a, y :: b, z :: c, hab, hbc => by
    simp only [collateLt] at hab hbc ⊢
    by_cases hxy : x = y
    · subst hxy
      by_cases hxz : x = z
      · subst hxz
        simp only [if_true] at hab hbc ⊢
        exact collateLt_trans hab hbc
      · simpa only [if_true, hxz, if_false] using hbc
    · by_cases hyz : y = z
      · subst hyz
        simpa only [hxy, if_false] using hab
      · simp only [hxy, hyz, if_false, decide_eq_true_eq] at hab hbc
        have hxz := lt_trans hab hbc
        simp [ne_of_lt hxz, hxz]
  | a, [], _, h, _ => by cases a <;> simp [collateLt] at h
  | _, _ :: _, [], _, h => by simp [collateLt] at h

theorem collateLt_asymm {a b : List Char} (h : collateLt a b) : collateLt b a = false := by
  cases h' : collateLt b a
  · rfl
  · simpa [collateLt_irrefl] using collateLt_trans h h'

theorem collateLt_total : ∀ {a b : List Char}, a ≠ b → collateLt a b ∨ collateLt b a
  | [], [], h => absurd rfl h
  | [], _ :: _, _ | _ :: _, [], _ => by simp [collateLt]
  | c :: cs, d :: ds, h => by
    simp only [collateLt]
    by_cases hcd : c = d
    · subst hcd
      simpa using collateLt_total (a := cs) (b := ds) (by simpa using h)
    · rw [if_neg hcd, if_neg (Ne.symm hcd)]
      exact (lt_or_gt_of_ne hcd).imp decide_eq_true decide_eq_true

/-- Every non-empty text is above the empty one, the lower bound a first page lists from. -/
@[simp] theorem textLt_empty_left (k : String) : textLt "" k = decide (k ≠ "") := by
  obtain ⟨_ | ⟨c, cs⟩⟩ := k <;> rfl

/-- Nothing is below the empty text. -/
@[simp] theorem textLt_empty_right (k : String) : textLt k "" = false := by
  obtain ⟨_ | ⟨c, cs⟩⟩ := k <;> rfl

theorem textLt_irrefl (a : String) : textLt a a = false := collateLt_irrefl a.data

theorem textLt_trans {a b c : String} (hab : textLt a b) (hbc : textLt b c) : textLt a c :=
  collateLt_trans hab hbc

theorem textLt_asymm {a b : String} (h : textLt a b) : textLt b a = false := collateLt_asymm h

theorem textLt_total {a b : String} (h : a ≠ b) : textLt a b ∨ textLt b a :=
  collateLt_total (fun e => h (String.ext e))

/-! ## `LIKE` -/

/-- One element of a parsed `LIKE` pattern. -/
inductive LikeToken where
  | literal (c : Char)
  | anyChar
  | anySeq
deriving DecidableEq

/-- **`LIKE` pattern syntax** with the default escape `\`: an escaped character stands for itself, `_` for one
character, `%` for any run of characters. -/
def parseLike : List Char → Except String (List LikeToken)
  | [] => .ok []
  | ['\\'] => .error "LIKE pattern must not end with escape character"
  | '\\' :: c :: rest => (LikeToken.literal c :: ·) <$> parseLike rest
  | '%' :: rest => (LikeToken.anySeq :: ·) <$> parseLike rest
  | '_' :: rest => (LikeToken.anyChar :: ·) <$> parseLike rest
  | c :: rest => (LikeToken.literal c :: ·) <$> parseLike rest

/-- Whether some suffix of the text, the text itself and the empty one included, passes `f`. -/
def anySuffix (f : List Char → Bool) : List Char → Bool
  | [] => f []
  | c :: s => f (c :: s) || anySuffix f s

/-- **`LIKE` matching** of a parsed pattern against the whole text. -/
def likeMatch : List LikeToken → List Char → Bool
  | [], s => s.isEmpty
  | .literal c :: p, d :: s => c == d && likeMatch p s
  | .anyChar :: p, _ :: s => likeMatch p s
  | .anySeq :: p, s => anySuffix (likeMatch p) s
  | .literal _ :: _, [] => false
  | .anyChar :: _, [] => false

/-- A prefix that `LIKE` reads literally: none of its characters is `%`, `_` or the escape `\`. -/
def likeLiteral (p : List Char) : Bool := p.all (fun c => c != '%' && c != '_' && c != '\\')

theorem parseLike_literal_pattern : ∀ p : List Char, likeLiteral p →
    parseLike (p ++ ['%']) = .ok (p.map .literal ++ [.anySeq])
  | [], _ => rfl
  | c :: p, h => by
    simp only [likeLiteral, List.all_cons, Bool.and_eq_true, bne_iff_ne, ne_eq] at h
    obtain ⟨⟨⟨h1, h2⟩, h3⟩, hp⟩ := h
    have ih := parseLike_literal_pattern p hp
    rw [List.cons_append, List.map_cons, List.cons_append]
    cases hc : p ++ ['%'] with
    | nil => simp at hc
    | cons d rest =>
      rw [hc] at ih
      unfold parseLike
      split <;> simp_all

theorem anySuffix_of_nil {f : List Char → Bool} (h : f []) : ∀ s, anySuffix f s
  | [] => h
  | c :: s => by simp [anySuffix, anySuffix_of_nil h s]

/-- **A literal prefix followed by `%` matches exactly the texts it begins.** -/
theorem likeMatch_literal_iff : ∀ (p s : List Char),
    likeMatch (p.map .literal ++ [.anySeq]) s = decide (p <+: s)
  | [], s => by simpa [likeMatch] using anySuffix_of_nil (f := fun s => s.isEmpty) rfl s
  | c :: p, [] => by simp [likeMatch]
  | c :: p, d :: s => by
    show (c == d && likeMatch (p.map .literal ++ [.anySeq]) s) = decide (c :: p <+: d :: s)
    rw [likeMatch_literal_iff p s]
    by_cases h : c = d <;> simp [h]

end Vss
