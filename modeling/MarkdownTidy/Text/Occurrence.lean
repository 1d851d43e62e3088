import MarkdownTidy.Text.WhiteSpace

namespace MarkdownTidy.Text

/-- Whether a pattern stands somewhere in a text. -/
def occursIn (pattern : Text) : Text → Bool
  | [] => pattern.isEmpty
  | c :: rest => pattern.isPrefixOf (c :: rest) || pattern.occursIn rest

theorem occursIn_iff_infix {pattern t : Text} : pattern.occursIn t = true ↔ pattern <:+: t := by
  induction t with
  | nil => simp [occursIn]
  | cons c rest ih => simp [occursIn, List.infix_cons_iff, ih]

end MarkdownTidy.Text
