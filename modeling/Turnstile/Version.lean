/-! The version of the programs. -/

namespace Turnstile

def version : String := "0.1.0"

end Turnstile
