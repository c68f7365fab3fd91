import SovaVerified.Text.Text

/-!
# Slugs

`slugify` of `sova/utils/formatting.py`. The decomposition of Unicode is a parameter.
-/

namespace Utils.Formatting

/-- `[a-z0-9]`. -/
def isSlugChar (c : Char) : Bool := ('a' ≤ c && c ≤ 'z') || ('0' ≤ c && c ≤ '9')

/-- `re.sub(r"[^a-z0-9]+", "-", text)`, behind a character that was or was not of a run. -/
def dashed (inRun : Bool) : Text → Text
  | [] => []
  | c :: t =>
    if isSlugChar c then c :: dashed false t
    else if inRun then dashed true t else '-' :: dashed true t

/-- `text.strip("-")`. -/
def stripDashes (t : Text) : Text :=
  ((t.dropWhile (· == '-')).reverse.dropWhile (· == '-')).reverse

/-- `text.rsplit("-", 1)[0]`. -/
def beforeLastDash (t : Text) : Text :=
  if '-' ∈ t then ((t.reverse.dropWhile (· != '-')).drop 1).reverse else t

/-- `slugify`. -/
def slugify (nfkd : Text → Text) (text : Text) (maxLength : Nat) : Text :=
  let text := (nfkd text).filter fun c => decide (c.toNat < 128)
  let text := stripDashes (dashed false (text.map Char.toLower))
  if maxLength < text.length then beforeLastDash (text.take maxLength) else text

end Utils.Formatting
