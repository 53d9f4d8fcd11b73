/-! The release that this library is, and the oldest compiler its clients are built with. -/

namespace Turnstile

def version : String := "0.1.0"

def minimumCompiler : String := "1.70.0"

end Turnstile
