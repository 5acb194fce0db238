import Folio.Text.Basic

namespace Folio.Text

theorem stripPrefix?_eq_some_iff {p t rest : Text} : stripPrefix? p t = some rest ↔ t = p ++ rest := by
  induction p generalizing t with
  | nil => simp [stripPrefix?, eq_comm]
  | cons c cs ih =>
    cases t with
    | nil => simp [stripPrefix?]
    | cons d ds =>
      rw [stripPrefix?]
      by_cases hc : c = d
      · rw [if_pos hc, ih, hc, List.cons_append, List.cons_inj_right]
      · rw [if_neg hc]
        simp [Ne.symm hc]

end Folio.Text
